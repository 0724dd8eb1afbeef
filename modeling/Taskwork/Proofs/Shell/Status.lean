/-
Which status is used. A shell notes a status when a statement, a substitution or a copy of it
completes, and not when a pipeline in the middle of a list does; what `$?` and `exit` use is the
status noted last. It is that of the pipeline or substitution that completed last exactly where the
history is `Timely`.
-/
import Taskwork.Proofs.Shell.Chronicle
import Taskwork.Proofs.Shell.Commands
import Taskwork.Proofs.Shell.Quoting
import Taskwork.Program.Sample

namespace Taskwork.Shell

/-! ## Histories -/

/-- The status that was noted last, in a shell that started with a status. -/
def noted (start : Int) : List Event → Int
  | [] => start
  | .pipeline _ :: es => noted start es
  | .substitution status :: _ => status
  | .statement status :: _ => status
  | .copy status :: _ => status

/-- Every statement ended with the status that was recent. -/
def Orderly (start : Int) : List Event → Prop
  | [] => True
  | .pipeline _ :: es => Orderly start es
  | .substitution _ :: es => Orderly start es
  | .statement status :: es => recent start es = status ∧ Orderly start es
  | .copy _ :: es => Orderly start es

/-- The status noted last is recent: after a pipeline in the middle of a list only if the one noted
before was the same, and after a stage of a pipeline only if its own is the same as that of what
completed last before it. -/
def Timely (start : Int) : List Event → Prop
  | .pipeline status :: es => noted start es = status
  | .copy status :: es => recent start es = status
  | _ => True

theorem noted_eq_recent_iff {start : Int} {es : List Event} (h : Orderly start es) :
    noted start es = recent start es ↔ Timely start es := by
  cases es with
  | nil => exact iff_of_true rfl trivial
  | cons e es =>
    cases e with
    | pipeline status => exact Iff.rfl
    | substitution status => exact iff_of_true rfl trivial
    | statement status => exact iff_of_true h.1.symm trivial
    | copy status => exact eq_comm

/-! ## What does not touch the status -/

/-- Whatever is done, the status stays. -/
def Steady {α : Type} (act : Act α) : Prop :=
  Stateful.Keeps (fun w w' => w'.state.lastStatus = w.state.lastStatus) act

namespace Steady

variable {α β : Type}

theorem pure (a : α) : Steady (Pure.pure a : Act α) := fun _ => rfl

theorem bind {act : Act α} {f : α → Act β} (h : Steady act) (hf : ∀ a, Steady (f a)) :
    Steady (act >>= f) :=
  Stateful.Keeps.bind h hf fun _ _ _ hw hw' => hw'.trans hw

theorem state : Steady Act.state := fun _ => rfl

theorem files : Steady Act.files := fun _ => rfl

theorem setState {f : State → State} (h : ∀ s, (f s).lastStatus = s.lastStatus) :
    Steady (Act.setState f) := fun w => h w.state

theorem write (sink : Sink) (bytes : Bytes) : Steady (Act.write sink bytes) := by
  unfold Act.write
  split
  · exact pure ()
  · cases sink <;> exact fun _ => rfl

theorem openFile (h : Handlers) (path : String) (mode : OpenMode) : Steady (Act.openFile h path mode) :=
  fun _ => rfl

theorem lastStatus_publish (s : State) (name : String) (value : Option String) :
    (s.publish name value).lastStatus = s.lastStatus := by
  unfold State.publish
  dsimp only
  split <;> rfl

theorem lastStatus_set (s : State) (name value : String) : (s.set name value).lastStatus = s.lastStatus := by
  unfold State.set
  split <;> rfl

theorem call (h : Handlers) (words : List String) (assigned : List (String × String)) (streams : Streams) :
    Steady (Act.call h words assigned streams) := by
  have hrest (outcome : Program.Outcome) : Steady (do
      Act.write streams.stdout outcome.stdout
      Act.write streams.stderr outcome.stderr
      return outcome.status) :=
    bind (write _ _) fun _ => bind (write _ _) fun _ => pure _
  intro w
  unfold Act.call
  rw [Stateful.bind_ok (show (get : Act World) w = (.ok w, w) from rfl)]
  rcases hexec : h.exec ⟨w.state.directory, assigned.foldl (fun env row => env.insert row.1 row.2)
    w.state.exported, words, ⟨streams.stdin.input, streams.stdout.output .stdout,
    streams.stderr.output .stderr⟩⟩ w.host with ⟨host, result⟩
  simp only [hexec]
  cases result with
  | error f => rfl
  | ok outcome => exact hrest outcome { w with host }

theorem thorough : Thorough Steady where
  pure := pure
  bind := bind
  state := state
  files := files
  write := write
  openFile := openFile
  throw _ := fun _ => rfl
  exited := setState fun _ => rfl
  enter _ := setState fun _ => rfl
  set name value := setState (lastStatus_set · name value)
  publish name value := setState (lastStatus_publish · name value)
  unset _ := setState fun _ => rfl
  call := call

end Steady

/-! ## Following a run -/

/-- The chronicle is that of the shell: the status of its state is the one noted last, and so was
the value of every use. -/
structure Agrees (start : Int) (w : World) (c : Chronicle) : Prop where
  status : w.state.lastStatus = noted start c.history
  orderly : Orderly start c.history
  uses : ∀ u ∈ c.uses, u.value = noted start u.history ∧ Orderly start u.history

/-- What an observed run comes to is what a run comes to, its chronicle agrees, and `Q` is true of
what it returns if it ends well. -/
structure Matches {α : Type} (start : Int) (x : Except Stop α × World × Chronicle)
    (y : Except Stop α × World) (Q : α → Chronicle → Prop) : Prop where
  same : (x.1, x.2.1) = y
  agrees : Agrees start x.2.1 x.2.2
  returns : ∀ a, x.1 = .ok a → Q a x.2.2

/-- An observed run does what a run does, wherever it starts. -/
def Follows {α : Type} (start : Int) (x : Observed α) (act : Act α) : Prop :=
  ∀ w c, Agrees start w c → Matches start (x (w, c)) (act w) fun _ _ => True

variable {α β : Type} {start : Int} {w : World} {c : Chronicle}

namespace Matches

theorem pure {a : α} {Q : α → Chronicle → Prop} (h : Agrees start w c) (hQ : Q a c) :
    Matches start ((Pure.pure a : Observed α) (w, c)) ((Pure.pure a : Act α) w) Q := by
  refine ⟨rfl, h, ?_⟩
  rintro b ⟨⟩
  exact hQ

theorem throw {e : Stop} {Q : α → Chronicle → Prop} (h : Agrees start w c) :
    Matches start ((MonadExcept.throw e : Observed α) (w, c)) ((MonadExcept.throw e : Act α) w) Q := by
  refine ⟨rfl, h, ?_⟩
  rintro b ⟨⟩

theorem bind {x : Observed α} {act : Act α} {f : α → Observed β} {g : α → Act β}
    {Q : α → Chronicle → Prop} {R : β → Chronicle → Prop} (hx : Matches start (x (w, c)) (act w) Q)
    (hf : ∀ a w' c', Agrees start w' c' → Q a c' → Matches start (f a (w', c')) (g a w') R) :
    Matches start ((x >>= f) (w, c)) ((act >>= g) w) R := by
  obtain ⟨hsame, hagrees, hreturns⟩ := hx
  rcases hxw : x (w, c) with ⟨result, w', c'⟩
  rw [hxw] at hsame hagrees hreturns
  cases result with
  | error e =>
    rw [Stateful.bind_error hsame.symm, Stateful.bind_error hxw]
    refine ⟨rfl, hagrees, ?_⟩
    rintro b ⟨⟩
  | ok a =>
    rw [Stateful.bind_ok hsame.symm, Stateful.bind_ok hxw]
    exact hf a w' c' hagrees (hreturns a rfl)

theorem weaken {x : Except Stop α × World × Chronicle} {y : Except Stop α × World}
    {Q : α → Chronicle → Prop} (hx : Matches start x y Q) : Matches start x y fun _ _ => True :=
  ⟨hx.same, hx.agrees, fun _ _ => trivial⟩

theorem plainly {act : Act α} (hact : Steady act) (h : Agrees start w c) :
    Matches start (Observed.plainly act (w, c)) (act w) fun _ c' => c' = c :=
  ⟨rfl, ⟨(hact w).trans h.status, h.orderly, h.uses⟩, fun _ _ => rfl⟩

/-- Writing down that a pipeline completes. -/
theorem completed {x : Observed Int} {act : Act Int} {Q : Int → Chronicle → Prop}
    (hx : Matches start (x (w, c)) (act w) Q) :
    Matches start ((do
        let status ← x
        Observed.completed (.pipeline status)
        return status : Observed Int) (w, c)) (act w)
      fun status c' => c'.history.head? = some (.pipeline status) := by
  obtain ⟨hsame, hagrees, -⟩ := hx
  rcases hxw : x (w, c) with ⟨result, w', c'⟩
  rw [hxw] at hsame hagrees
  rw [← hsame]
  cases result with
  | error e =>
    rw [Stateful.bind_error hxw]
    refine ⟨rfl, hagrees, ?_⟩
    rintro b ⟨⟩
  | ok status =>
    rw [Stateful.bind_ok hxw]
    refine ⟨rfl, ⟨hagrees.status, hagrees.orderly, hagrees.uses⟩, ?_⟩
    rintro b ⟨⟩
    rfl

end Matches

namespace Follows

theorem pure (a : α) : Follows start (Pure.pure a) (Pure.pure a) := fun _ _ h => Matches.pure h trivial

theorem bind {x : Observed α} {act : Act α} {f : α → Observed β} {g : α → Act β}
    (hx : Follows start x act) (hf : ∀ a, Follows start (f a) (g a)) :
    Follows start (x >>= f) (act >>= g) := fun w c h => (hx w c h).bind fun a w' c' h' _ => hf a w' c' h'

theorem plainly {act : Act α} (hact : Steady act) : Follows start (Observed.plainly act) act :=
  fun _ _ h => (Matches.plainly hact h).weaken

/-- Writing down a use of the status. -/
theorem used {x : Observed α} {act : Act α} (hx : Follows start x act) :
    Follows start (Observed.used >>= fun _ => x) act := by
  intro w c h
  have huse : Agrees start w { c with uses := c.uses ++ [⟨w.state.lastStatus, c.history⟩] } := by
    refine ⟨h.status, h.orderly, ?_⟩
    intro u hu
    rcases List.mem_append.mp hu with hu | hu
    · exact h.uses u hu
    · obtain rfl := List.mem_singleton.mp hu
      exact ⟨h.status, h.orderly⟩
  exact hx w _ huse

/-- A copy of the shell ends with a status that is noted. -/
theorem isolated {e : Int → Event} (he : ∀ status es, noted start (e status :: es) = status ∧
    (Orderly start es → Orderly start (e status :: es))) {x : Observed Int} {act : Act Int}
    (hx : Follows start x act) : Follows start (Observed.isolated e x) (Act.isolated act) := by
  intro w c h
  -- the copy goes on with the history and the status of the shell
  obtain ⟨hsame, hagrees, -⟩ := hx w c h
  unfold Observed.isolated Act.isolated
  rcases hxw : x (w, c) with ⟨result, w', c'⟩
  rw [hxw] at hsame hagrees
  simp only [hxw, ← hsame]
  have hback (status : Int) : Agrees start { w' with state := { w.state with lastStatus := status } }
      { c' with history := e status :: c.history } :=
    ⟨(he status c.history).1.symm, (he status c.history).2 h.orderly, hagrees.uses⟩
  cases result with
  | ok status => exact ⟨rfl, hback status, fun _ _ => trivial⟩
  | error stop =>
    cases stop with
    | exit status => exact ⟨rfl, hback status, fun _ _ => trivial⟩
    | failure f => exact ⟨rfl, ⟨h.status, h.orderly, hagrees.uses⟩, fun _ _ => trivial⟩

theorem tested (isTest : Bool) {x : Observed Int} {act : Act Int} (hx : Follows start x act) :
    Follows start (Observed.tested isTest x) (Act.tested isTest act) := by
  intro w c h
  unfold Observed.tested Act.tested
  cases isTest with
  | false => exact hx w c h
  | true =>
    obtain ⟨hsame, hagrees, -⟩ := hx { w with state := { w.state with tests := w.state.tests + 1 } } c
      ⟨h.status, h.orderly, h.uses⟩
    simp only [if_true, ← hsame]
    exact ⟨rfl, ⟨hagrees.status, hagrees.orderly, hagrees.uses⟩, fun _ _ => trivial⟩

theorem buffered {x : Observed Int} {act : Act Int} (hx : Follows start x act) :
    Follows start (Observed.buffered x) (Act.buffered act) := by
  intro w c h
  obtain ⟨hsame, hagrees, -⟩ := hx { w with captured := [] } c ⟨h.status, h.orderly, h.uses⟩
  unfold Observed.buffered Act.buffered
  rcases hxw : x ({ w with captured := [] }, c) with ⟨result, w', c'⟩
  rw [hxw] at hsame hagrees
  simp only [hxw, ← hsame]
  cases result with
  | ok status => exact ⟨rfl, ⟨hagrees.status, hagrees.orderly, hagrees.uses⟩, fun _ _ => trivial⟩
  | error stop => exact ⟨rfl, ⟨hagrees.status, hagrees.orderly, hagrees.uses⟩, fun _ _ => trivial⟩

theorem withStreams (outer : Streams) (streams : Except (String × FileFault) Streams)
    {x : Streams → Observed Int} {act : Streams → Act Int} (hx : ∀ streams, Follows start (x streams) (act streams)) :
    Follows start (Observed.withStreams outer streams x) (Act.withStreams outer streams act) := by
  cases streams with
  | ok streams => exact hx streams
  | error fault => exact bind (plainly (.write _ _)) fun _ => pure 1

theorem substitution {x : Streams → Observed Int} {act : Streams → Act Int}
    (hx : ∀ streams, Follows start (x streams) (act streams)) :
    Follows start (Observed.substitution x) (Act.substitution act) := by
  refine bind (plainly .state) fun s => bind (buffered (isolated (fun _ _ => ⟨rfl, id⟩) ?_)) fun _ => pure _
  exact bind (plainly (.setState fun _ => rfl)) fun _ => hx _

theorem perform (h : Handlers) (words : List String) (assigned : List (String × String)) (streams : Streams) :
    Follows start (Observed.perform h words assigned streams) (Act.perform h words assigned streams) := by
  have hplain : Follows start (Observed.plainly (Act.perform h words assigned streams))
      (Act.perform h words assigned streams) := plainly (Steady.thorough.perform h words assigned streams)
  unfold Observed.perform
  split
  · exact used hplain
  · exact hplain

theorem lookup (name : String) : Follows start (Observed.lookup name)
    (do return ((← Act.state).parameter? name).getD "") := by
  have hplain : Follows start (Observed.plainly Act.state >>= fun s => Pure.pure ((s.parameter? name).getD ""))
      (do return ((← Act.state).parameter? name).getD "") := bind (plainly .state) fun _ => pure _
  unfold Observed.lookup
  split
  · exact used hplain
  · exact hplain

end Follows

/-! ## Every part of a script -/

theorem recent_of_head {start status : Int} {es : List Event} (h : es.head? = some (.pipeline status)) :
    recent start es = status := by
  obtain ⟨es, rfl⟩ := List.head?_eq_some_iff.mp h
  rfl

variable (h : Handlers)

mutual

theorem follows_list (streams : Streams) : ∀ script : List Statement,
    Follows start (Observed.list h streams script) (Run.list h streams script)
  | [] => by
    unfold Observed.list Run.list
    exact .bind (.plainly .state) fun s => .pure s.lastStatus
  | statement :: rest => by
    unfold Observed.list Run.list
    refine .bind (.plainly .state) fun s => ?_
    split
    · exact .bind (.plainly .state) fun s => .pure s.lastStatus
    · intro w c hc
      refine (follows_andOr streams statement w c hc).bind fun status w' c' hc' hhead => ?_
      exact follows_list streams rest { w' with state := { w'.state with lastStatus := status } }
        { c' with history := .statement status :: c'.history }
        ⟨rfl, ⟨recent_of_head hhead, hc'.orderly⟩, hc'.uses⟩

/-- A list of pipelines ends when the last of those that run completes, with its status. -/
theorem follows_andOr (streams : Streams) : ∀ (s : Statement) (w : World) (c : Chronicle), Agrees start w c →
    Matches start (Observed.andOr h streams s (w, c)) (Run.andOr h streams s w)
      fun status c' => c'.history.head? = some (.pipeline status)
  | ⟨first, rest, text, line⟩, w, c, hc => by
    unfold Observed.andOr Run.andOr
    refine (follows_guarded streams _ first w c hc).bind fun status w' c' hc' hhead => ?_
    refine (follows_links streams status _ rest w' c' hc' hhead).bind fun last w' c' hc' hhead => ?_
    refine (Matches.plainly .state hc').bind fun s w' c' hc' hsame => ?_
    split
    · exact Matches.throw hc'
    · exact Matches.pure hc' (hsame ▸ hhead)

theorem follows_links (streams : Streams) : ∀ (status : Int) (counts : Bool) (rest : List Link) (w : World)
    (c : Chronicle), Agrees start w c → c.history.head? = some (.pipeline status) →
    Matches start (Observed.links h streams status counts rest (w, c)) (Run.links h streams status counts rest w)
      fun last c' => c'.history.head? = some (.pipeline last.1)
  | status, counts, [], w, c, hc, hhead => by
    unfold Observed.links Run.links
    exact Matches.pure hc hhead
  | status, counts, ⟨connector, next⟩ :: rest, w, c, hc, hhead => by
    unfold Observed.links Run.links
    have hrun := (follows_guarded streams (!rest.isEmpty) next w c hc).bind fun status w' c' hc' hhead =>
      follows_links streams status (rest.isEmpty && !next.negated) rest w' c' hc' hhead
    have hskip := follows_links streams status false rest w c hc hhead
    cases connector <;> dsimp only <;> split
    · exact hrun
    · exact hskip
    · exact hrun
    · exact hskip

theorem follows_guarded (streams : Streams) : ∀ (isTest : Bool) (p : Pipeline) (w : World) (c : Chronicle),
    Agrees start w c →
    Matches start (Observed.guarded h streams isTest p (w, c)) (Run.guarded h streams isTest p w)
      fun status c' => c'.history.head? = some (.pipeline status)
  | isTest, ⟨negated, commands⟩, w, c, hc => by
    unfold Observed.guarded Run.guarded
    refine Matches.completed (Follows.tested _ ?_ w c hc)
    match commands with
    | [] => exact .bind (follows_stages streams _ []) fun status => .pure _
    | [only] => exact .bind (follows_command streams only) fun status => .pure _
    | stage :: next :: rest =>
      exact .bind (follows_stages streams _ (stage :: next :: rest)) fun status => .pure _

theorem follows_stages (streams : Streams) : ∀ (input : Source) (commands : List Command),
    Follows start (Observed.stages h streams input commands) (Run.stages h streams input commands)
  | input, [] => by
    unfold Observed.stages Run.stages
    exact .pure 0
  | input, [last] => by
    unfold Observed.stages Run.stages
    exact .isolated (fun _ _ => ⟨rfl, id⟩) (follows_command _ last)
  | input, stage :: next :: rest => by
    unfold Observed.stages Run.stages
    exact .bind (.buffered (.isolated (fun _ _ => ⟨rfl, id⟩) (follows_command _ stage))) fun written =>
      follows_stages streams _ (next :: rest)

theorem follows_command (streams : Streams) : ∀ command : Command,
    Follows start (Observed.command h streams command) (Run.command h streams command)
  | .simple assigns words redirects => by
    unfold Observed.command Run.command
    exact .bind (follows_fields words) fun arguments => .bind (follows_values assigns) fun assigned =>
      .bind (follows_redirections streams redirects) fun redirected =>
        .withStreams _ _ fun streams => .perform h arguments assigned streams
  | .subshell script redirects => by
    unfold Observed.command Run.command
    exact .bind (follows_redirections streams redirects) fun redirected =>
      .withStreams _ _ fun streams => .isolated (fun _ _ => ⟨rfl, id⟩) (follows_list streams script)
  | .group script redirects => by
    unfold Observed.command Run.command
    exact .bind (follows_redirections streams redirects) fun redirected =>
      .withStreams _ _ fun streams => follows_list streams script

theorem follows_redirections (streams : Streams) : ∀ redirects : List Redirect,
    Follows start (Observed.redirections h streams redirects) (Run.redirections h streams redirects)
  | [] => by
    unfold Observed.redirections Run.redirections
    exact .pure _
  | ⟨fd, kind, target⟩ :: rest => by
    unfold Observed.redirections Run.redirections
    refine .bind (follows_text target) fun target => .bind (.plainly (Steady.thorough.redirect _ _ _ _ _))
      fun redirected => ?_
    cases redirected with
    | ok streams => exact follows_redirections streams rest
    | error e => exact .pure _

theorem follows_values : ∀ assigns : List Assign,
    Follows start (Observed.values h assigns) (Run.values h assigns)
  | [] => by
    unfold Observed.values Run.values
    exact .pure _
  | ⟨name, value⟩ :: rest => by
    unfold Observed.values Run.values
    exact .bind (follows_text value) fun value => .bind (follows_values rest) fun rest => .pure _

theorem follows_fields : ∀ words : List (List Part),
    Follows start (Observed.fields h words) (Run.fields h words)
  | [] => by
    unfold Observed.fields Run.fields
    exact .pure _
  | word :: rest => by
    unfold Observed.fields Run.fields
    exact .bind (follows_parts _ word) fun found => .bind (.plainly .state) fun s =>
      .bind (.plainly .files) fun files => .bind (follows_fields rest) fun rest => .pure _

theorem follows_parts : ∀ (found : Fields) (parts : List Part),
    Follows start (Observed.parts h found parts) (Run.parts h found parts)
  | found, [] => by
    unfold Observed.parts Run.parts
    exact .pure found
  | found, .literal text quoted :: rest => by
    unfold Observed.parts Run.parts
    exact follows_parts _ rest
  | found, .param name fallback quoted :: rest => by
    unfold Observed.parts Run.parts
    exact .bind (follows_parameter name fallback) fun value => follows_parts _ rest
  | found, .subst script quoted :: rest => by
    unfold Observed.parts Run.parts
    exact .bind (.substitution fun streams => follows_list streams script) fun value => follows_parts _ rest

theorem follows_text : ∀ parts : List Part, Follows start (Observed.text h parts) (Run.text h parts)
  | [] => by
    unfold Observed.text Run.text
    exact .pure ""
  | .literal t _ :: rest => by
    unfold Observed.text Run.text
    exact .bind (follows_text rest) fun rest => .pure _
  | .param name fallback _ :: rest => by
    unfold Observed.text Run.text
    exact .bind (follows_parameter name fallback) fun value => .bind (follows_text rest) fun rest => .pure _
  | .subst script _ :: rest => by
    unfold Observed.text Run.text
    exact .bind (.substitution fun streams => follows_list streams script) fun value =>
      .bind (follows_text rest) fun rest => .pure _

theorem follows_parameter (name : String) : ∀ fallback : Option (List Part),
    Follows start (Observed.parameter h name fallback) (Run.parameter h name fallback)
  | none => by
    unfold Observed.parameter Run.parameter
    exact .lookup name
  | some fallback => by
    unfold Observed.parameter Run.parameter
    have hfollows : Follows start
        (Observed.lookup name >>= fun value => if value.isEmpty then Observed.text h fallback else pure value)
        ((do return ((← Act.state).parameter? name).getD "") >>= fun value =>
          if value.isEmpty then Run.text h fallback else pure value) := by
      refine .bind (.lookup name) fun value => ?_
      split
      · exact follows_text fallback
      · exact .pure value
    -- the parameter is looked up within the same act here
    simpa only [bind_assoc, pure_bind] using hfollows

end

/-! ## Scripts -/

/-- Whether more statements may run; until then the chronicle agrees. -/
def Ready (start : Int) (w : World) (c : Chronicle) : Prop :=
  (∀ u ∈ c.uses, u.value = noted start u.history ∧ Orderly start u.history) ∧
    (w.state.exited = true ∨ Agrees start w c)

theorem ready_statement (s : Statement) (hc : Ready start w c) : ∃ result w' c',
    Observed.statement h s (w, c) = (result, (w', c')) ∧ Run.statement h s w = (result, w') ∧
      (∀ u ∈ c'.uses, u.value = noted start u.history ∧ Orderly start u.history) ∧
      (result = .ok () → Ready start w' c') := by
  unfold Observed.statement Run.statement
  by_cases hexited : w.state.exited = true
  · simp only [hexited, if_true]
    exact ⟨_, _, _, rfl, rfl, hc.1, fun _ => hc⟩
  · have hagrees := hc.2.resolve_left hexited
    have hmatches := follows_andOr h w.state.streams s w c hagrees
    rcases hobserved : Observed.andOr h w.state.streams s (w, c) with ⟨result, w', c'⟩
    rw [hobserved] at hmatches
    obtain ⟨hsame, hagrees', hhead⟩ := hmatches
    simp only [hexited, Bool.false_eq_true, if_false, hobserved, ← hsame]
    cases result with
    | ok status =>
      have hend : Agrees start { w' with state := { w'.state with lastStatus := status } }
          { c' with history := .statement status :: c'.history } :=
        ⟨rfl, ⟨recent_of_head (hhead status rfl), hagrees'.orderly⟩, hagrees'.uses⟩
      exact ⟨_, _, _, rfl, rfl, hagrees'.uses, fun _ => ⟨hagrees'.uses, .inr hend⟩⟩
    | error stop =>
      cases stop with
      | failure f =>
        refine ⟨_, _, _, rfl, rfl, hagrees'.uses, ?_⟩
        rintro ⟨⟩
      | exit status =>
        dsimp only
        -- an `exit` with 0 ends the script well, and no statement runs after it
        split
        · rename_i hzero
          rw [Bool.and_eq_true] at hzero
          exact ⟨_, _, _, rfl, rfl, hagrees'.uses, fun _ => ⟨hagrees'.uses, .inl hzero.2⟩⟩
        · refine ⟨_, _, _, rfl, rfl, hagrees'.uses, ?_⟩
          rintro ⟨⟩

theorem ready_script : ∀ (s : Script) (w : World) (c : Chronicle), Ready start w c → ∃ c',
    Observed.script h s (w, c) = ((Run.script h s w).1, ((Run.script h s w).2, c')) ∧
      ∀ u ∈ c'.uses, u.value = noted start u.history ∧ Orderly start u.history
  | [], w, c, hc => ⟨c, rfl, hc.1⟩
  | s :: rest, w, c, hc => by
    obtain ⟨result, w', c', hobserved, hrun, huses, hready⟩ := ready_statement h s hc
    unfold Observed.script Run.script
    cases result with
    | error stop =>
      rw [Stateful.bind_error hobserved, Stateful.bind_error hrun]
      exact ⟨c', rfl, huses⟩
    | ok =>
      rw [Stateful.bind_ok hobserved, Stateful.bind_ok hrun]
      exact ready_script rest w' c' (hready rfl)

/-- An `exit` alone, as a pipeline. -/
def exitAlone : Pipeline := ⟨false, [.simple [] [[.literal "exit" false]] []]⟩

/-- The world after an `exit`. -/
def exitedFrom (w : World) : World := { w with state := { w.state with exited := true } }

theorem guarded_exitAlone (streams : Streams) (w : World) :
    Run.guarded h streams false exitAlone w = (.error (.exit w.state.lastStatus), exitedFrom w) := by
  have hfields : Run.fields h [[.literal "exit" false]] w = (.ok ["exit"], w) :=
    fields_quotedWords h ["exit"] w
  have hvalues : Run.values h [] w = (.ok [], w) := by
    unfold Run.values
    rfl
  have hredirections : Run.redirections h streams [] w = (.ok (.ok streams), w) := by
    unfold Run.redirections
    rfl
  have hperform : Act.perform h ["exit"] [] streams w = (.error (.exit w.state.lastStatus), exitedFrom w) := rfl
  have hcommand : Run.command h streams (.simple [] [[.literal "exit" false]] []) w =
      (.error (.exit w.state.lastStatus), exitedFrom w) := by
    unfold Run.command
    rw [Stateful.bind_ok hfields, Stateful.bind_ok hvalues, Stateful.bind_ok hredirections]
    exact hperform
  unfold exitAlone Run.guarded
  exact Stateful.bind_error hcommand

/-- An `exit` after a failing pipeline uses the status of the state in which that pipeline ends. -/
theorem andOr_exit {p : Pipeline} {text : String} {line : Nat} {streams : Streams} {status : Int} {w' : World}
    (hp : Run.guarded h streams true p w = (.ok status, w')) (hstatus : status ≠ 0) :
    Run.andOr h streams ⟨p, [⟨.or, exitAlone⟩], text, line⟩ w =
      (.error (.exit w'.state.lastStatus), exitedFrom w') := by
  have hlinks : Run.links h streams status false [⟨.or, exitAlone⟩] w' =
      (.error (.exit w'.state.lastStatus), exitedFrom w') := by
    unfold Run.links
    dsimp only
    rw [if_pos (bne_iff_ne.mpr hstatus)]
    exact Stateful.bind_error (guarded_exitAlone h streams w')
  unfold Run.andOr
  exact (Stateful.bind_ok hp).trans (Stateful.bind_error hlinks)

/-- The script ends with the status that `exit` uses, or well if that is 0. -/
theorem script_exit {p : Pipeline} {text : String} {line : Nat} {status : Int} {w' : World}
    (hexited : w.state.exited = false) (hp : Run.guarded h w.state.streams true p w = (.ok status, w'))
    (hstatus : status ≠ 0) :
    (Run.script h [⟨p, [⟨.or, exitAlone⟩], text, line⟩] w).1 =
      if w'.state.lastStatus = 0 then .ok () else .error (.exit w'.state.lastStatus) := by
  have hstatement : (Run.statement h ⟨p, [⟨.or, exitAlone⟩], text, line⟩ w).1 =
      if w'.state.lastStatus = 0 then .ok () else .error (.exit w'.state.lastStatus) := by
    unfold Run.statement
    rw [hexited, if_neg (by decide), andOr_exit h hp hstatus]
    dsimp only
    by_cases hzero : w'.state.lastStatus = 0
    · simp [hzero, exitedFrom]
    · simp [hzero]
  unfold Run.script
  rw [Stateful.bind_apply]
  rcases hrun : Run.statement h ⟨p, [⟨.or, exitAlone⟩], text, line⟩ w with ⟨_ | ⟨⟩, w''⟩
  · rw [hrun] at hstatement
    exact hstatement
  · rw [hrun] at hstatement
    exact hstatement

/-- A use of the status gives the recent one exactly where the history is timely; and `exit` after a
failing pipeline ends the script with the status of that pipeline exactly where it is then. -/
theorem status_used_is_recent_iff (s : Script) (w : World) :
    (∃ c, Observed.script h s (w, ⟨[], []⟩) = ((Run.script h s w).1, ((Run.script h s w).2, c)) ∧
      ∀ u ∈ c.uses, u.value = recent w.state.lastStatus u.history ↔
        Timely w.state.lastStatus u.history) ∧
    ∀ p text line status w' c, w.state.exited = false → status ≠ 0 →
      Observed.guarded h w.state.streams true p (w, ⟨[], []⟩) = (.ok status, (w', c)) →
      ((Run.script h [⟨p, [⟨.or, exitAlone⟩], text, line⟩] w).1 = .error (.exit status) ↔
        Timely w.state.lastStatus c.history) := by
  have hstart : Agrees w.state.lastStatus w ⟨[], []⟩ := ⟨rfl, trivial, nofun⟩
  constructor
  · obtain ⟨c, hsame, huses⟩ := ready_script h s w ⟨[], []⟩ ⟨nofun, .inr hstart⟩
    refine ⟨c, hsame, fun u hu => ?_⟩
    obtain ⟨hvalue, horderly⟩ := huses u hu
    rw [hvalue]
    exact noted_eq_recent_iff horderly
  · intro p text line status w' c hexited hstatus hp
    have hmatches := follows_guarded h w.state.streams true p w ⟨[], []⟩ hstart
    rw [hp] at hmatches
    obtain ⟨hsame, hagrees, hhead⟩ := hmatches
    have htimely : Timely w.state.lastStatus c.history ↔ w'.state.lastStatus = status := by
      rw [hagrees.status, ← recent_of_head (hhead status rfl)]
      exact (noted_eq_recent_iff hagrees.orderly).symm
    rw [htimely, script_exit h hexited hsame.symm hstatus]
    split
    · rename_i hzero
      rw [hzero]
      exact iff_of_false nofun (Ne.symm hstatus)
    · rw [Except.error.injEq, Stop.exit.injEq]

/-! ## Lists of two pipelines -/

/-- The sample programs, and files as they are. -/
def sampleHandlers : Handlers := ⟨Program.Sample.exec, Handlers.openDirect⟩

/-- A shell that stops at the first failure. -/
def sampleWorld : World := ⟨{ State.initial "/" with errexit := true }, [], .ofFiles default []⟩

/-- A `false` alone, as a pipeline. -/
def falseAlone : Pipeline := ⟨false, [.simple [] [[.literal "false" false]] []]⟩

/-- The same in a subshell. -/
def falseInCopy : Pipeline := ⟨false, [.subshell [⟨falseAlone, [], "false", 1⟩] []]⟩

/-- A failure in a subshell is noted, and `exit` passes it on. -/
theorem subshell_or_exit :
    (Run.script sampleHandlers [⟨falseInCopy, [⟨.or, exitAlone⟩], "(false) || exit", 1⟩] sampleWorld).1 =
      .error (.exit 1) ∧
    ∀ u ∈ (Observed.script sampleHandlers [⟨falseInCopy, [⟨.or, exitAlone⟩], "(false) || exit", 1⟩]
      (sampleWorld, ⟨[], []⟩)).2.2.uses, u.value = recent 0 u.history := by
  have hboth := status_used_is_recent_iff sampleHandlers
    [⟨falseInCopy, [⟨.or, exitAlone⟩], "(false) || exit", 1⟩] sampleWorld
  refine ⟨(hboth.2 falseInCopy "(false) || exit" 1 1 _ _ rfl (by decide) rfl).mpr rfl, fun u hu => ?_⟩
  obtain ⟨c, hsame, huses⟩ := hboth.1
  rw [hsame] at hu
  refine (huses u hu).mpr ?_
  have hc : c.uses = [⟨1, [.pipeline 1, .copy 1]⟩] := by
    have := congrArg (fun x => x.2.2.uses) hsame
    exact this.symm
  rw [hc, List.mem_singleton] at hu
  rw [hu]
  rfl

/-- A failure in the shell itself is not noted before its list ends, and `exit` takes it for a
success. -/
theorem false_or_exit :
    Script.ofString "false || exit" = .ok [⟨falseAlone, [⟨.or, exitAlone⟩], "false || exit", 1⟩] ∧
    (Run.guarded sampleHandlers sampleWorld.state.streams true falseAlone sampleWorld).1 = .ok 1 ∧
    (Run.script sampleHandlers [⟨falseAlone, [⟨.or, exitAlone⟩], "false || exit", 1⟩] sampleWorld).1 =
      .ok () ∧
    (Observed.script sampleHandlers [⟨falseAlone, [⟨.or, exitAlone⟩], "false || exit", 1⟩]
      (sampleWorld, ⟨[], []⟩)).2.2.uses = [⟨0, [.pipeline 1]⟩] ∧
    recent 0 [.pipeline 1] = 1 :=
  ⟨by with_unfolding_all rfl, rfl, rfl, rfl, rfl⟩

end Taskwork.Shell
