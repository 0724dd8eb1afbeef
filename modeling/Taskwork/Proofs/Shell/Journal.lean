/-
Running a script with a journal of what the shell does: which files it asks for and which programs it
calls, how it changes its variables and its directory, and when it executes `exit`. What a copy of the
shell does stands in a journal of its own within that of the shell. Without the journal a recorded run
is the run itself (`Recorded.fst_each`), and all that the handlers are asked stands in it
(`Recorded.each_told`).
-/
import Taskwork.Proofs.Shell.Grouping
import Taskwork.Proofs.Shell.Operations

namespace Taskwork.Shell

/-! ## Deeds -/

/-- Something that a shell does. -/
inductive Deed where
  /-- The handlers are asked to open a file. -/
  | opened (directory path : String) (mode : OpenMode)
  /-- The handlers are asked to run a program. With the call stand the shell that makes it and the
  assignments in front of the command. -/
  | called (shell : State) (assigned : List (String × String)) (call : Program.Call)
  /-- The shell executes `exit`. -/
  | exited (status : Int)
  | noted (status : Int)
  | set (name value : String)
  | published (name : String) (value : Option String)
  | unset (name : String)
  | entered (directory : String)
  /-- A copy of the shell does all this; its status is noted unless a program could not be run. -/
  | copied (deeds : List Deed) (status : Option Int)

/-- What a deed makes of the state of the shell. -/
def Deed.apply (s : State) : Deed → State
  | .opened .. => s
  | .called .. => s
  | .exited _ => { s with exited := true }
  | .noted status => { s with lastStatus := status }
  | .set name value => s.set name value
  | .published name value => s.publish name value
  | .unset name => s.unset name
  | .entered directory => s.enter directory
  | .copied _ status => { s with lastStatus := status.getD s.lastStatus }

/-- What deeds make of a state, one after another. -/
def replay (s : State) (deeds : List Deed) : State := deeds.foldl Deed.apply s

/-- A call of a program, with what the shell that makes it had done before: itself, and as the shells
it is a copy of. -/
structure PastCall where
  past : List Deed
  shell : State
  assigned : List (String × String)
  call : Program.Call

mutual

/-- The calls of programs in a deed, those of copies of the shell included. -/
def Deed.calls (past : List Deed) : Deed → List PastCall
  | .called shell assigned call => [⟨past, shell, assigned, call⟩]
  | .copied deeds _ => callsOf past deeds
  | _ => []

def callsOf (past : List Deed) : List Deed → List PastCall
  | [] => []
  | d :: rest => d.calls past ++ callsOf (past ++ [d]) rest

end

/-! ## Recording -/

/-- Doing something, and what has been done then. -/
def Recorded (α : Type) : Type := World → (Except Stop α × World) × List Deed

namespace Recorded

variable {α β : Type}

def andThen (x : Recorded α) (f : α → Recorded β) : Recorded β := fun w =>
  match x w with
  | ((.ok a, w), deeds) =>
    let (out, more) := f a w
    (out, deeds ++ more)
  | ((.error e, w), deeds) => ((.error e, w), deeds)

instance : Monad Recorded where
  pure a := fun w => ((.ok a, w), [])
  bind := andThen

theorem bind_ok {x : Recorded α} {f : α → Recorded β} {w w' : World} {a : α} {deeds : List Deed}
    (h : x w = ((.ok a, w'), deeds)) : (x >>= f) w = ((f a w').1, deeds ++ (f a w').2) := by
  show andThen x f w = _
  unfold andThen
  rw [h]

theorem bind_error {x : Recorded α} {f : α → Recorded β} {w w' : World} {e : Stop} {deeds : List Deed}
    (h : x w = ((.error e, w'), deeds)) : (x >>= f) w = ((.error e, w'), deeds) := by
  show andThen x f w = _
  unfold andThen
  rw [h]

end Recorded

/-- The status with which a copy of a shell ends. -/
def statusOf? : Except Stop Int → Option Int
  | .ok status => some status
  | .error (.exit status) => some status
  | .error (.failure _) => none

/-- The way in which a redirection opens its target. -/
def RedirectKind.mode? : RedirectKind → Option OpenMode
  | .read => some .read
  | .write => some .write
  | .append => some .append
  | .duplicate => none
  | .writeBoth => some .write

/-- What a builtin command does in the shell, by what comes of it. -/
def builtinDeeds (name : String) (args : List String) (out : Except Stop Int × World) : List Deed :=
  match name with
  | "cd" => match out.1 with
    | .ok 0 => [.entered out.2.state.directory]
    | _ => []
  | "exit" => match out.1 with
    | .error (.exit status) => [.exited status]
    | _ => []
  | "export" => args.map fun arg => match Builtin.splitEqual? arg with
    | some (name, value) => .published name (some value)
    | none => .published arg none
  | "unset" => args.map .unset
  | _ => []

/-- The environment of a program that is called with assignments. -/
def State.environment (s : State) (assigned : List (String × String)) : Table :=
  assigned.foldl (fun env row => env.insert row.1 row.2) s.exported

/-- What a command does in the shell, by what comes of it. -/
def commandDeeds (words : List String) (assigned : List (String × String)) (streams : Streams) (w : World)
    (out : Except Stop Int × World) : List Deed :=
  match words with
  | [] => assigned.map fun row => .set row.1 row.2
  | name :: args => match Builtin.builtin? name with
    | some _ => builtinDeeds name args out
    | none => [.called w.state assigned
        ⟨w.state.directory, w.state.environment assigned, name :: args, Pairing.wiring streams⟩]

namespace Recorded

variable {α β : Type}

/-- Does something of which the journal says nothing. -/
def plainly (act : Act α) : Recorded α := fun w => (act w, [])

/-- Does something within an act that starts it in the world `start w`; `tell` gives what the journal
says of it. -/
def inside (act : Act Int → Act β) (start : World → World) (tell : Except Stop Int → List Deed → List Deed)
    (x : Recorded Int) : Recorded β := fun w =>
  let (out, deeds) := x (start w)
  (act (fun _ => out) w, tell out.1 deeds)

/-- The journal of a copy of the shell. -/
def ofCopy (result : Except Stop Int) (deeds : List Deed) : List Deed := [.copied deeds (statusOf? result)]

/-- The operations of the interpreter, recorded. -/
def operations (h : Handlers) : Operations Recorded where
  isOver := plainly (Operations.acts h).isOver
  lastStatus := plainly (Operations.acts h).lastStatus
  note status := fun w => ((Operations.acts h).note status w, [.noted status])
  conclude status counts := plainly ((Operations.acts h).conclude status counts)
  tested isTest := inside (Act.tested isTest)
    (fun w => if isTest then { w with state := { w.state with tests := w.state.tests + 1 } } else w) fun _ deeds => deeds
  copied := inside Act.isolated (fun w => w) ofCopy
  piped := inside (Operations.acts h).piped (fun w => { w with captured := [] }) ofCopy
  substituted run := fun w => inside (fun act => Act.substitution fun _ => act)
    (fun w => { w with captured := [], state := { w.state with exited := false } }) ofCopy
    (run ⟨.null, .capture, w.state.streams.stderr⟩) w
  lookup name := plainly ((Operations.acts h).lookup name)
  arguments found := plainly ((Operations.acts h).arguments found)
  redirect fd kind target streams := fun w =>
    (Act.redirect h fd kind target streams w, kind.mode?.toList.map (.opened w.state.directory target))
  refuse outer fault := plainly ((Operations.acts h).refuse outer fault)
  perform words assigned streams := fun w =>
    let out := Act.perform h words assigned streams w
    (out, commandDeeds words assigned streams w out)

variable (h : Handlers)

/-- A statement, recorded. -/
def statement (s : Statement) : Recorded Unit := fun w =>
  if w.state.exited then ((.ok (), w), [])
  else
    let (out, deeds) := (operations h).andOr w.state.streams s w
    (ended out, deeds ++ (statusOf? out.1).toList.map .noted)

/-- Statements one after another, whatever comes of them. -/
def each : List Statement → World → World × List Deed
  | [], w => (w, [])
  | s :: rest, w =>
    let ((_, w), deeds) := statement h s w
    let (w, more) := each rest w
    (w, deeds ++ more)

end Recorded

/-- Statements one after another, whatever comes of them. -/
def Run.each (h : Handlers) (statements : List Statement) (w : World) : World :=
  statements.foldl (fun w s => (Run.statement h s w).2) w

/-! ## Without the journal -/

/-- A recorded act is an act with a journal. -/
def Erases {α : Type} (x : Recorded α) (act : Act α) : Prop := ∀ w, (x w).1 = act w

theorem erases_plainly {α : Type} (act : Act α) : Erases (Recorded.plainly act) act := fun _ => rfl

/-- An act that does another one once, in the world `start w`, may be given what comes of that. -/
theorem erases_inside {β : Type} {act : Act Int → Act β} {start : World → World}
    {tell : Except Stop Int → List Deed → List Deed} (hact : ∀ (x : Act Int) w, act x w = act (fun _ => x (start w)) w)
    {x : Recorded Int} {x' : Act Int} (hx : Erases x x') : Erases (Recorded.inside act start tell x) (act x') := by
  intro w
  rw [hact x' w, ← hx (start w)]
  rfl

theorem erases (h : Handlers) : (Recorded.operations h).Related (Operations.acts h) Erases where
  pure _ := fun _ => rfl
  bind {α β x x' f f'} hx hf := by
    intro w
    have herased := hx w
    rcases hrun : x w with ⟨⟨e | a, w'⟩, deeds⟩ <;> rw [hrun] at herased
    · rw [Recorded.bind_error hrun, Stateful.bind_error herased.symm]
    · rw [Recorded.bind_ok hrun, Stateful.bind_ok herased.symm]
      exact hf a w'
  isOver := erases_plainly _
  lastStatus := erases_plainly _
  note _ := fun _ => rfl
  conclude _ _ := erases_plainly _
  tested isTest := erases_inside fun x w => by cases isTest <;> rfl
  copied := erases_inside fun x w => rfl
  piped := erases_inside fun x w => rfl
  substituted hx := fun w => erases_inside (fun x w => rfl) (hx _) w
  lookup _ := erases_plainly _
  arguments _ := erases_plainly _
  redirect _ _ _ _ := fun _ => rfl
  refuse _ _ := erases_plainly _
  perform _ _ _ := fun _ => rfl

namespace Recorded

variable (h : Handlers)

theorem fst_statement (s : Statement) (w : World) : (statement h s w).1 = Run.statement h s w := by
  unfold statement
  cases hexited : w.state.exited with
  | true =>
    unfold Run.statement
    rw [hexited]
    rfl
  | false =>
    have herased : ((operations h).andOr w.state.streams s w).1 = Run.andOr h w.state.streams s w := by
      rw [Run.andOr_eq]
      exact (erases h).andOr w.state.streams s w
    rw [statement_eq_ended h hexited, ← herased]
    rfl

theorem fst_each (statements : List Statement) (w : World) : (each h statements w).1 = Run.each h statements w := by
  induction statements generalizing w with
  | nil => rfl
  | cons s rest ih =>
    show (each h rest (statement h s w).1.2).1 = Run.each h rest (Run.statement h s w).2
    rw [fst_statement, ih]

end Recorded

/-! ## Nothing is left out -/

mutual

/-- Two kinds of handlers give the same answer to what a deed asks of them. -/
def Deed.Answered (h h' : Handlers) : Deed → Prop
  | .opened directory path mode => ∀ host, h'.openFile directory path mode host = h.openFile directory path mode host
  | .called _ _ call => ∀ host, h'.exec call host = h.exec call host
  | .copied deeds _ => AllAnswered h h' deeds
  | _ => True

def AllAnswered (h h' : Handlers) : List Deed → Prop
  | [] => True
  | d :: rest => d.Answered h h' ∧ AllAnswered h h' rest

end

section Answers

variable {h h' : Handlers}

theorem allAnswered_append {deeds more : List Deed} :
    AllAnswered h h' (deeds ++ more) ↔ AllAnswered h h' deeds ∧ AllAnswered h h' more := by
  induction deeds with
  | nil =>
    unfold AllAnswered
    exact ⟨fun hmore => ⟨trivial, hmore⟩, And.right⟩
  | cons d rest ih =>
    show d.Answered h h' ∧ AllAnswered h h' (rest ++ more) ↔ (d.Answered h h' ∧ AllAnswered h h' rest) ∧ _
    rw [ih, and_assoc]

theorem allAnswered_ofCopy {result : Except Stop Int} {deeds : List Deed}
    (hanswers : AllAnswered h h' (Recorded.ofCopy result deeds)) : AllAnswered h h' deeds := hanswers.1

/-- Whatever the handlers are asked stands in the journal: with handlers that answer all of it alike, the
same is done. -/
def Settles (h h' : Handlers) {α : Type} (x x' : Recorded α) : Prop :=
  ∀ w, AllAnswered h h' (x w).2 → x' w = x w

namespace Settles

variable {α β : Type}

theorem refl (x : Recorded α) : Settles h h' x x := fun _ _ => rfl

theorem bind {x x' : Recorded α} {f f' : α → Recorded β} (hx : Settles h h' x x')
    (hf : ∀ a, Settles h h' (f a) (f' a)) : Settles h h' (x >>= f) (x' >>= f') := by
  intro w hanswers
  have hsame := hx w
  rcases hrun : x w with ⟨⟨e | a, w'⟩, deeds⟩ <;> rw [hrun] at hsame
  · rw [Recorded.bind_error hrun] at hanswers ⊢
    exact Recorded.bind_error (hsame hanswers)
  · rw [Recorded.bind_ok hrun] at hanswers ⊢
    obtain ⟨hdeeds, hmore⟩ := allAnswered_append.1 hanswers
    rw [Recorded.bind_ok (hsame hdeeds), hf a w' hmore]

theorem inside {act : Act Int → Act β} {start : World → World} {tell : Except Stop Int → List Deed → List Deed}
    (htell : ∀ {result deeds}, AllAnswered h h' (tell result deeds) → AllAnswered h h' deeds)
    {x x' : Recorded Int} (hx : Settles h h' x x') :
    Settles h h' (Recorded.inside act start tell x) (Recorded.inside act start tell x') := by
  intro w hanswers
  have hsame := hx (start w) (htell hanswers)
  unfold Recorded.inside
  rw [hsame]

theorem openFile_congr {target : String} {mode : OpenMode} {w : World}
    (hhost : h'.openFile w.state.directory target mode w.host = h.openFile w.state.directory target mode w.host) :
    Act.openFile h' target mode w = Act.openFile h target mode w := by
  have happly (h : Handlers) : Act.openFile h target mode w =
      (.ok ((h.openFile w.state.directory target mode w.host).2.mapError (Path.join w.state.directory target, ·)),
        { w with host := (h.openFile w.state.directory target mode w.host).1 }) := rfl
  rw [happly, happly, hhost]

theorem redirect (fd : Nat) (kind : RedirectKind) (target : String) (streams : Streams) :
    Settles h h' ((Recorded.operations h).redirect fd kind target streams)
      ((Recorded.operations h').redirect fd kind target streams) := by
  intro w hanswers
  have hopens {β : Type} (mode : OpenMode) (hmode : kind.mode? = some mode)
      (f : Except (String × FileFault) Nat → Act β) :
      (Act.openFile h' target mode >>= f) w = (Act.openFile h target mode >>= f) w := by
    have hopened : AllAnswered h h' (kind.mode?.toList.map (.opened w.state.directory target)) := hanswers
    rw [hmode] at hopened
    rw [Stateful.bind_apply, Stateful.bind_apply, openFile_congr (hopened.1 w.host)]
  refine Prod.ext ?_ rfl
  show Act.redirect h' fd kind target streams w = Act.redirect h fd kind target streams w
  unfold Act.redirect
  cases kind with
  | duplicate => rfl
  | read => exact hopens .read rfl _
  | write => exact hopens .write rfl _
  | append => exact hopens .append rfl _
  | writeBoth => exact hopens .write rfl _

theorem perform (words : List String) (assigned : List (String × String)) (streams : Streams) :
    Settles h h' ((Recorded.operations h).perform words assigned streams)
      ((Recorded.operations h').perform words assigned streams) := by
  intro w hanswers
  have hsame : Act.perform h' words assigned streams w = Act.perform h words assigned streams w := by
    have hasked : AllAnswered h h' (commandDeeds words assigned streams w (Act.perform h words assigned streams w)) :=
      hanswers
    unfold commandDeeds at hasked
    unfold Act.perform
    cases words with
    | nil => rfl
    | cons name args =>
      dsimp only at hasked ⊢
      cases hbuiltin : Builtin.builtin? name with
      | some run => rfl
      | none =>
        -- only here a program is called, and the call stands in the journal
        rw [hbuiltin] at hasked
        exact (Pairing.InStep.call_apply (hasked.1 w.host)).trans (Pairing.InStep.call_apply rfl).symm
  show (_, commandDeeds words assigned streams w (Act.perform h' words assigned streams w)) = (_, _)
  rw [hsame]

end Settles

/-- What the handlers do when they are not asked makes no difference, and what they are asked stands in
the journal. -/
theorem settles (h h' : Handlers) :
    (Recorded.operations h).Related (Recorded.operations h') fun x x' => Settles h h' x x' where
  pure _ := .refl _
  bind := Settles.bind
  isOver := .refl _
  lastStatus := .refl _
  note _ := .refl _
  conclude _ _ := .refl _
  tested _ := .inside id
  copied := .inside allAnswered_ofCopy
  piped := .inside allAnswered_ofCopy
  substituted hx := fun w => Settles.inside allAnswered_ofCopy (hx _) w
  lookup _ := .refl _
  arguments _ := .refl _
  redirect := .redirect
  refuse _ _ := .refl _
  perform := .perform

namespace Recorded

theorem statement_told (s : Statement) (w : World) (hanswers : AllAnswered h h' (statement h s w).2) :
    statement h' s w = statement h s w := by
  have hsame := (settles h h').andOr w.state.streams s w
  -- the outcome is named, so that the run of the pipelines is not looked into
  obtain ⟨⟨out, deeds⟩, hrun⟩ : ∃ out, (operations h).andOr w.state.streams s w = out := ⟨_, rfl⟩
  unfold statement at hanswers ⊢
  cases hexited : w.state.exited with
  | true => rw [if_pos rfl, if_pos rfl]
  | false =>
    rw [hexited, hrun] at hanswers
    rw [hrun] at hsame
    have hdeeds := (allAnswered_append.1 hanswers).1
    rw [hrun, hsame hdeeds]

/-- Handlers that answer alike what is in the journal of a run make the same run, with that journal. -/
theorem each_told (statements : List Statement) (w : World)
    (hanswers : AllAnswered h h' (each h statements w).2) : each h' statements w = each h statements w := by
  induction statements generalizing w with
  | nil => rfl
  | cons s rest ih =>
    have hboth : AllAnswered h h' ((statement h s w).2 ++ (each h rest (statement h s w).1.2).2) := hanswers
    obtain ⟨hfirst, hrest⟩ := allAnswered_append.1 hboth
    have happly (h : Handlers) : each h (s :: rest) w = ((each h rest (statement h s w).1.2).1,
        (statement h s w).2 ++ (each h rest (statement h s w).1.2).2) := rfl
    rw [happly, happly, statement_told s w hfirst, ih _ hrest]

end Recorded
end Answers
end Taskwork.Shell
