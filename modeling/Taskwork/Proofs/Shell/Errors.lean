/-
The standard error of command substitutions. Their commands are given the standard error of the whole shell,
whatever that of the command is which they are evaluated for; so it is the same stream if that command has the
shell's own, and another one below a group or subshell that sends it elsewhere.
-/
import Taskwork.Proofs.Shell.Settings
import Taskwork.Proofs.Shell.Surroundings
import Taskwork.Proofs.Shell.Variables

namespace Taskwork.Shell

/-! ## Redirections that leave the errors alone -/

/-- Whether a redirection says where the standard error goes. -/
def Redirect.touchesErrors (r : Redirect) : Bool :=
  match r.kind with
  | .read => false
  | .writeBoth => true
  | _ => r.fd == 2

/-- Where no redirection around says otherwise, the standard error is the shell's own. -/
def Surroundings.Untouched (own : Sink) (around : Surroundings) : Prop :=
  (∀ r ∈ around.redirects, r.touchesErrors = false) → around.streams.stderr = own

theorem redirect_stderr {h : Handlers} {fd : Nat} {kind : RedirectKind} {word : Word} {target : String}
    {streams streams' : Streams} {w w' : World} (hun : Redirect.touchesErrors ⟨fd, kind, word⟩ = false)
    (hrun : Act.redirect h fd kind target streams w = (.ok (.ok streams'), w')) :
    streams'.stderr = streams.stderr := by
  have hopened {mode : OpenMode} {place : Nat → Streams} (hplace : ∀ handle, (place handle).stderr = streams.stderr)
      (hact : (do return (← Act.openFile h target mode).map place : Act (Except (String × FileFault) Streams)) w =
        (.ok (.ok streams'), w')) : streams'.stderr = streams.stderr := by
    rw [Stateful.bind_apply] at hact
    rcases hopen : Act.openFile h target mode w with ⟨_ | _ | handle, v⟩ <;> rw [hopen] at hact
    · cases hact
    · cases hact
    · obtain rfl : place handle = streams' := Except.ok.inj (Except.ok.inj (congrArg Prod.fst hact))
      exact hplace handle
  have hplace (hfd : fd ≠ 2) (sink : Sink) : (if fd = 1 then { streams with stdout := sink }
      else if fd = 2 then { streams with stderr := sink } else streams).stderr = streams.stderr := by
    rw [if_neg hfd]
    split <;> rfl
  unfold Act.redirect at hrun
  cases kind with
  | read =>
    refine hopened (fun handle => ?_) hrun
    split <;> rfl
  | write => exact hopened (fun handle => hplace (by simpa [Redirect.touchesErrors] using hun) _) hrun
  | append => exact hopened (fun handle => hplace (by simpa [Redirect.touchesErrors] using hun) _) hrun
  | writeBoth => cases hun
  | duplicate =>
    have hfd : fd ≠ 2 := by simpa [Redirect.touchesErrors] using hun
    dsimp only at hrun
    split at hrun <;> obtain rfl := Except.ok.inj (Except.ok.inj (congrArg Prod.fst hrun))
    · exact hplace hfd _
    · exact hplace hfd _
    · rfl

theorem redirections_stderr {h : Handlers} {streams streams' : Streams} {redirects : List Redirect} {w w' : World}
    (hun : ∀ r ∈ redirects, r.touchesErrors = false)
    (hrun : Run.redirections h streams redirects w = (.ok (.ok streams'), w')) :
    streams'.stderr = streams.stderr := by
  induction redirects generalizing streams w with
  | nil =>
    unfold Run.redirections at hrun
    cases hrun
    rfl
  | cons r rest ih =>
    obtain ⟨fd, kind, target⟩ := r
    obtain ⟨hr, hrest⟩ := List.forall_mem_cons.1 hun
    unfold Run.redirections at hrun
    rw [Stateful.bind_apply] at hrun
    rcases htext : Run.text h target w with ⟨_ | text, v⟩ <;> rw [htext] at hrun
    · cases hrun
    dsimp only at hrun
    rw [Stateful.bind_apply] at hrun
    rcases hredirect : Act.redirect h fd kind text streams v with ⟨_ | opened, u⟩ <;> rw [hredirect] at hrun
    · cases hrun
    cases opened with
    | error fault => cases hrun
    | ok after => exact (ih hrest hrun).trans (redirect_stderr hr hredirect)

/-! ## Finding the substitutions -/

/-- Surveying changes nothing, and whatever substitutions are found in a shell whose standard error is `own`
have that one, and surroundings of a kind. -/
def Finds {α : Type} (own : Sink) (P : Surroundings → Prop) (x : Surveyed α) (y : Act α) : Prop :=
  ∀ w survey, w.state.streams.stderr = own → ∃ more,
    x (w, survey) = ((y w).1, ((y w).2, { survey with evaluated := survey.evaluated ++ more })) ∧
    (y w).2.state.streams.stderr = own ∧
    ∀ e ∈ more, e.errors = own ∧ P e.around

/-- A kind of surroundings that everything has which runs in them. -/
structure Spreads (h : Handlers) (own : Sink) (P : Surroundings → Prop) : Prop where
  start : P (.start ⟨.null, .capture, own⟩)
  reading : ∀ {around} input, P around → P (around.reading input)
  piping : ∀ {around} input, P around → P (around.piping input)
  within : ∀ {around redirects streams w w'},
    Run.redirections h around.streams redirects w = (.ok (.ok streams), w') →
    P around → P (around.within redirects streams)

namespace Finds

variable {α β : Type} {own : Sink} {P : Surroundings → Prop}

theorem plainly {act : Act α} (h : Goes act) : Finds own P (Surveyed.plainly act) act := by
  intro w survey hown
  refine ⟨[], ?_, ?_, nofun⟩
  · rw [List.append_nil]
    rfl
  · rw [(h w).streams, hown]

theorem pure (a : α) : Finds own P (Pure.pure a) (Pure.pure a) := plainly (Goes.pure a)

theorem throw (e : Stop) : Finds own P (MonadExcept.throw e : Surveyed α) (MonadExcept.throw e) :=
  plainly (Goes.throw e)

theorem bind {x : Surveyed α} {y : Act α} {f : α → Surveyed β} {g : α → Act β} (hx : Finds own P x y)
    (hf : ∀ a, (∃ w w', y w = (.ok a, w')) → Finds own P (f a) (g a)) : Finds own P (x >>= f) (y >>= g) := by
  intro w survey hown
  obtain ⟨more, hrun, hown', hmore⟩ := hx w survey hown
  rw [Stateful.bind_apply, Stateful.bind_apply, hrun]
  rcases hy : y w with ⟨e | a, w'⟩ <;> rw [hy] at hown'
  · exact ⟨more, rfl, hown', hmore⟩
  · obtain ⟨last, hrun', hown'', hlast⟩ :=
      hf a ⟨w, w', hy⟩ w' { survey with evaluated := survey.evaluated ++ more } hown'
    refine ⟨more ++ last, ?_, hown'', List.forall_mem_append.2 ⟨hmore, hlast⟩⟩
    dsimp only
    rw [hrun', List.append_assoc]

theorem andThen {x : Surveyed α} {y : Act α} {f : α → Surveyed β} {g : α → Act β} (hx : Finds own P x y)
    (hf : ∀ a, Finds own P (f a) (g a)) : Finds own P (x >>= f) (y >>= g) := bind hx fun a _ => hf a

theorem state : Finds own P (Surveyed.plainly Act.state) Act.state := plainly Goes.state

theorem isolated {x : Surveyed Int} {y : Act Int} (h : Finds own P x y) :
    Finds own P (Surveyed.isolated x) (Act.isolated y) := by
  intro w survey hown
  obtain ⟨more, hrun, -, hmore⟩ := h w survey hown
  refine ⟨more, ?_, ?_, hmore⟩
  · unfold Surveyed.isolated Act.isolated
    dsimp only
    rw [hrun]
    rcases y w with ⟨(_ | _) | _, _⟩ <;> rfl
  · unfold Act.isolated
    rcases y w with ⟨(_ | _) | _, _⟩ <;> exact hown

theorem tested (isTest : Bool) {x : Surveyed Int} {y : Act Int} (h : Finds own P x y) :
    Finds own P (Surveyed.tested isTest x) (Act.tested isTest y) := by
  intro w survey hown
  unfold Surveyed.tested Act.tested
  cases isTest with
  | false => exact h w survey hown
  | true =>
    obtain ⟨more, hrun, hown', hmore⟩ :=
      h { w with state := { w.state with tests := w.state.tests + 1 } } survey hown
    refine ⟨more, ?_, hown', hmore⟩
    dsimp only
    rw [hrun]
    rfl

theorem buffered {x : Surveyed Int} {y : Act Int} (h : Finds own P x y) :
    Finds own P (Surveyed.buffered x) (Act.buffered y) := by
  intro w survey hown
  obtain ⟨more, hrun, hown', hmore⟩ := h { w with captured := [] } { survey with depth := survey.depth + 1 } hown
  refine ⟨more, ?_, ?_, hmore⟩
  · unfold Surveyed.buffered Act.buffered
    dsimp only
    rw [hrun]
    rcases y { w with captured := [] } with ⟨_ | _, _⟩ <;> rfl
  · unfold Act.buffered
    rcases hy : y { w with captured := [] } with ⟨_ | _, _⟩ <;> rw [hy] at hown' <;> exact hown'

/-- A substitution is noted with the standard error of the shell, and runs in new surroundings. -/
theorem substitution {around : Surroundings} (haround : P around) {x : Surroundings → Surveyed Int}
    {y : Streams → Act Int}
    (hrun : Finds own P (x (.start ⟨.null, .capture, own⟩)) (y ⟨.null, .capture, own⟩)) :
    Finds own P (Surveyed.substitution around x) (Act.substitution y) := by
  intro w survey hown
  subst hown
  let noted : Evaluated := ⟨around, survey.depth, w.state.streams.stderr⟩
  have hrest : Finds w.state.streams.stderr P
      (Surveyed.buffered (Surveyed.isolated do
        Surveyed.plainly (Act.setState ({ · with exited := false }))
        x (.start ⟨.null, .capture, w.state.streams.stderr⟩)) >>= fun p =>
          Pure.pure (Act.chomp (Utf8.decodeLossy p.2)))
      (Act.buffered (Act.isolated do
        Act.setState ({ · with exited := false })
        y ⟨.null, .capture, w.state.streams.stderr⟩) >>= fun p => Pure.pure (Act.chomp (Utf8.decodeLossy p.2))) :=
    andThen (buffered (isolated (andThen (plainly (Goes.setState (.exited false))) fun _ => hrun))) fun _ => pure _
  obtain ⟨more, hsame, hown, hmore⟩ := hrest w { survey with evaluated := survey.evaluated ++ [noted] } rfl
  refine ⟨noted :: more, ?_, hown, List.forall_mem_cons.2 ⟨⟨rfl, haround⟩, hmore⟩⟩
  rw [List.append_cons]
  exact hsame

variable {h : Handlers}

theorem withStreams (hP : Spreads h own P) {around : Surroundings} (haround : P around) {redirects : List Redirect}
    {redirected : Except (String × FileFault) Streams}
    (hrun : ∃ w w', Run.redirections h around.streams redirects w = (.ok redirected, w'))
    {x : Surroundings → Surveyed Int} {y : Streams → Act Int}
    (hact : ∀ {within : Surroundings}, P within → Finds own P (x within) (y within.streams)) :
    Finds own P (Surveyed.withStreams around redirects redirected x)
      (Act.withStreams around.streams redirected y) := by
  obtain ⟨w, w', hrun⟩ := hrun
  cases redirected with
  | ok streams => exact hact (hP.within hrun haround)
  | error fault => exact andThen (plainly (Goes.thorough.writeText _ _)) fun _ => pure 1

end Finds

/-! ## Every part of a script -/

section Interpreter

variable {h : Handlers} {own : Sink} {P : Surroundings → Prop}

mutual

theorem finds_list (hP : Spreads h own P) {around : Surroundings} (haround : P around) : ∀ script : List Statement,
    Finds own P (Surveyed.list h around script) (Run.list h around.streams script)
  | [] => by
    unfold Surveyed.list Run.list
    exact .andThen .state fun s => .pure _
  | statement :: rest => by
    unfold Surveyed.list Run.list
    refine .andThen .state fun s => ?_
    split
    · exact .andThen .state fun s => .pure _
    · exact .andThen (finds_andOr hP haround statement) fun status =>
        .andThen (.plainly (Goes.setState (.noted status))) fun _ => finds_list hP haround rest

theorem finds_andOr (hP : Spreads h own P) {around : Surroundings} (haround : P around) : ∀ s : Statement,
    Finds own P (Surveyed.andOr h around s) (Run.andOr h around.streams s)
  | ⟨first, rest, _, _⟩ => by
    unfold Surveyed.andOr Run.andOr
    refine .andThen (finds_guarded hP haround _ first) fun status =>
      .andThen (finds_links hP haround status _ rest) fun last => .andThen .state fun s => ?_
    dsimp only
    split
    · exact .andThen (.throw _) fun _ => .pure _
    · exact .pure _

theorem finds_links (hP : Spreads h own P) {around : Surroundings} (haround : P around) :
    ∀ (status : Int) (counts : Bool) (rest : List Link),
    Finds own P (Surveyed.links h around status counts rest) (Run.links h around.streams status counts rest)
  | status, counts, [] => by
    unfold Surveyed.links Run.links
    exact .pure _
  | status, counts, ⟨connector, next⟩ :: rest => by
    unfold Surveyed.links Run.links
    have hrun : Finds own P _ _ := .andThen (finds_guarded hP haround (!rest.isEmpty) next) fun status =>
      finds_links hP haround status (rest.isEmpty && !next.negated) rest
    have hskip := finds_links hP haround status false rest
    cases connector <;> dsimp only <;> split
    · exact hrun
    · exact hskip
    · exact hrun
    · exact hskip

theorem finds_guarded (hP : Spreads h own P) {around : Surroundings} (haround : P around) :
    ∀ (isTest : Bool) (p : Pipeline),
    Finds own P (Surveyed.guarded h around isTest p) (Run.guarded h around.streams isTest p)
  | isTest, ⟨negated, commands⟩ => by
    unfold Surveyed.guarded Run.guarded
    apply Finds.tested
    -- a command alone is no stage, so it is a case of its own
    match commands with
    | [] => exact .andThen (finds_stages hP haround _ []) fun status => .pure _
    | [only] => exact .andThen (finds_command hP haround only) fun status => .pure _
    | stage :: next :: rest => exact .andThen (finds_stages hP haround _ (stage :: next :: rest)) fun status => .pure _

theorem finds_stages (hP : Spreads h own P) {around : Surroundings} (haround : P around) :
    ∀ (input : Source) (commands : List Command),
    Finds own P (Surveyed.stages h around input commands) (Run.stages h around.streams input commands)
  | input, [] => by
    unfold Surveyed.stages Run.stages
    exact .pure 0
  | input, [last] => by
    unfold Surveyed.stages Run.stages
    exact .isolated (finds_command hP (hP.reading input haround) last)
  | input, stage :: next :: rest => by
    unfold Surveyed.stages Run.stages
    exact .andThen (.buffered (.isolated (finds_command hP (hP.piping input haround) stage))) fun written =>
      finds_stages hP haround _ (next :: rest)

theorem finds_command (hP : Spreads h own P) {around : Surroundings} (haround : P around) : ∀ c : Command,
    Finds own P (Surveyed.command h around c) (Run.command h around.streams c)
  | .simple assigns words redirects => by
    unfold Surveyed.command Run.command
    refine .andThen (finds_fields hP haround words) fun arguments =>
      .andThen (finds_values hP haround assigns) fun assigned => ?_
    exact .bind (finds_redirections hP haround _ redirects) fun redirected hrun =>
      .withStreams hP haround hrun fun _ => .plainly (Goes.thorough.perform h _ _ _)
  | .subshell script redirects => by
    unfold Surveyed.command Run.command
    exact .bind (finds_redirections hP haround _ redirects) fun redirected hrun =>
      .withStreams hP haround hrun fun hwithin => .isolated (finds_list hP hwithin script)
  | .group script redirects => by
    unfold Surveyed.command Run.command
    exact .bind (finds_redirections hP haround _ redirects) fun redirected hrun =>
      .withStreams hP haround hrun fun hwithin => finds_list hP hwithin script

theorem finds_redirections (hP : Spreads h own P) {around : Surroundings} (haround : P around) :
    ∀ (streams : Streams) (redirects : List Redirect),
    Finds own P (Surveyed.redirections h around streams redirects) (Run.redirections h streams redirects)
  | streams, [] => by
    unfold Surveyed.redirections Run.redirections
    exact .pure _
  | streams, ⟨fd, kind, target⟩ :: rest => by
    unfold Surveyed.redirections Run.redirections
    refine .andThen (finds_text hP haround target) fun target =>
      .andThen (.plainly (Goes.thorough.redirect h fd kind target streams)) fun redirected => ?_
    cases redirected with
    | ok streams => exact finds_redirections hP haround streams rest
    | error fault => exact .pure _

theorem finds_values (hP : Spreads h own P) {around : Surroundings} (haround : P around) : ∀ assigns : List Assign,
    Finds own P (Surveyed.values h around assigns) (Run.values h assigns)
  | [] => by
    unfold Surveyed.values Run.values
    exact .pure []
  | ⟨name, value⟩ :: rest => by
    unfold Surveyed.values Run.values
    exact .andThen (finds_text hP haround value) fun value =>
      .andThen (finds_values hP haround rest) fun more => .pure _

theorem finds_fields (hP : Spreads h own P) {around : Surroundings} (haround : P around) : ∀ words : List (List Part),
    Finds own P (Surveyed.fields h around words) (Run.fields h words)
  | [] => by
    unfold Surveyed.fields Run.fields
    exact .pure []
  | word :: rest => by
    unfold Surveyed.fields Run.fields
    exact .andThen (finds_parts hP haround _ word) fun found => .andThen .state fun s =>
      .andThen (.plainly Goes.files) fun files => .andThen (finds_fields hP haround rest) fun more => .pure _

theorem finds_parts (hP : Spreads h own P) {around : Surroundings} (haround : P around) :
    ∀ (found : Fields) (ps : List Part),
    Finds own P (Surveyed.parts h around found ps) (Run.parts h found ps)
  | found, [] => by
    unfold Surveyed.parts Run.parts
    exact .pure found
  | found, .literal text quoted :: rest => by
    unfold Surveyed.parts Run.parts
    exact finds_parts hP haround _ rest
  | found, .param name fallback quoted :: rest => by
    unfold Surveyed.parts Run.parts
    exact .andThen (finds_parameter hP haround name fallback) fun value => finds_parts hP haround _ rest
  | found, .subst script quoted :: rest => by
    unfold Surveyed.parts Run.parts
    exact .andThen (.substitution haround (finds_list hP hP.start script)) fun value => finds_parts hP haround _ rest

theorem finds_text (hP : Spreads h own P) {around : Surroundings} (haround : P around) : ∀ ps : List Part,
    Finds own P (Surveyed.text h around ps) (Run.text h ps)
  | [] => by
    unfold Surveyed.text Run.text
    exact .pure ""
  | .literal t _ :: rest => by
    unfold Surveyed.text Run.text
    exact .andThen (finds_text hP haround rest) fun more => .pure _
  | .param name fallback _ :: rest => by
    unfold Surveyed.text Run.text
    exact .andThen (finds_parameter hP haround name fallback) fun value =>
      .andThen (finds_text hP haround rest) fun more => .pure _
  | .subst script _ :: rest => by
    unfold Surveyed.text Run.text
    exact .andThen (.substitution haround (finds_list hP hP.start script)) fun value =>
      .andThen (finds_text hP haround rest) fun more => .pure _

theorem finds_parameter (hP : Spreads h own P) {around : Surroundings} (haround : P around)
    (name : String) : ∀ fallback : Option (List Part),
    Finds own P (Surveyed.parameter h around name fallback) (Run.parameter h name fallback)
  | none => by
    unfold Surveyed.parameter Run.parameter
    exact .andThen .state fun s => .pure _
  | some fallback => by
    unfold Surveyed.parameter Run.parameter
    refine .andThen .state fun s => ?_
    dsimp only
    split
    · exact finds_text hP haround fallback
    · exact .pure _

end

end Interpreter

/-! ## Which stream the errors of a substitution go to -/

theorem untouched_spreads (h : Handlers) (own : Sink) (given : Prop) :
    Spreads h own fun around => given → around.Untouched own where
  start _ _ := rfl
  reading _ haround := haround
  piping _ haround := haround
  within hrun haround hgiven hun :=
    (redirections_stderr (fun r hr => hun r (List.mem_append_right _ hr)) hrun).trans
      (haround hgiven fun r hr => hun r (List.mem_append_left _ hr))

/-- The buffer of the substitution itself is another one than any outside. -/
theorem Evaluated.shares_iff (e : Evaluated) :
    e.Shares ↔ e.around.streams.stderr = e.errors ∧ e.around.streams.stderr ≠ .capture := by
  unfold Evaluated.Shares
  cases e.errors <;> cases e.around.streams.stderr <;> simp [Sink.place, eq_comm]

/-- Whatever command is run, every substitution that is evaluated on the way has the standard error of the
whole shell; so it sends its errors where the command does for which it is evaluated exactly if that command has
the standard error of the shell too, and does not capture it. Started with that, all commands have it that no
redirection of the errors stands around. -/
theorem substitutions_share_errors_iff (h : Handlers) (streams : Streams) (c : Command) (w : World) :
    ∃ evaluated, Surveyed.command h (.start streams) c (w, ⟨0, []⟩) =
        ((Run.command h streams c w).1, ((Run.command h streams c w).2, ⟨0, evaluated⟩)) ∧
      (∀ e ∈ evaluated, e.errors = w.state.streams.stderr ∧
        (e.Shares ↔ e.around.streams.stderr = w.state.streams.stderr ∧ e.around.streams.stderr ≠ .capture)) ∧
      (streams.stderr = w.state.streams.stderr → streams.stderr ≠ .capture → ∀ e ∈ evaluated,
        (∀ r ∈ e.around.redirects, r.touchesErrors = false) → e.Shares) := by
  have hspreads := untouched_spreads h w.state.streams.stderr (streams.stderr = w.state.streams.stderr)
  have hstart : streams.stderr = w.state.streams.stderr →
      (Surroundings.start streams).Untouched w.state.streams.stderr := fun hsame _ => hsame
  obtain ⟨evaluated, hrun, -, hall⟩ := finds_command hspreads hstart c w ⟨0, []⟩ rfl
  refine ⟨evaluated, hrun, fun e he => ?_, fun hsame hcapture e he hun => ?_⟩
  · obtain ⟨herrors, -⟩ := hall e he
    rw [e.shares_iff, herrors]
    exact ⟨rfl, Iff.rfl⟩
  · obtain ⟨herrors, huntouched⟩ := hall e he
    have hstderr := huntouched hsame hun
    rw [e.shares_iff, herrors, hstderr, ← hsame]
    exact ⟨rfl, hcapture⟩

/-- `args $(err x)` in a group with a redirection. -/
def groupedArgs (r : Redirect) : Command :=
  .group [⟨⟨false, [.simple [] [[.literal "args" false], [.subst [⟨⟨false, [.simple []
    [[.literal "err" false], [.literal "x" false]] []]⟩, [], "err x", 1⟩] false]] []]⟩, [], "args $(err x)", 1⟩] [r]

/-- `>f` and `2>f` -/
def outputToFile : Redirect := ⟨1, .write, [.literal "f" false]⟩
def errorsToFile : Redirect := ⟨2, .write, [.literal "f" false]⟩

/-- What is substituted when the group is run in the root of a tree without files. -/
def evaluatedWith (r : Redirect) : List Evaluated :=
  (Surveyed.command sampleHandlers (.start rootWorld.state.streams) (groupedArgs r) (rootWorld, ⟨0, []⟩)).2.2.evaluated

/-- A redirection of the output leaves the errors of a substitution where those of the group go. -/
theorem outputToFile_shares :
    Script.ofString "{ args $(err x); } >f" =
        .ok [⟨⟨false, [groupedArgs outputToFile]⟩, [], "{ args $(err x); } >f", 1⟩] ∧
      rootWorld.state.streams.stderr ≠ .capture ∧ outputToFile.touchesErrors = false ∧
      ∃ e, evaluatedWith outputToFile = [e] ∧ e.Shares := by
  have hcapture : rootWorld.state.streams.stderr ≠ .capture := nofun
  obtain ⟨evaluated, hrun, -, hshares⟩ :=
    substitutions_share_errors_iff sampleHandlers rootWorld.state.streams (groupedArgs outputToFile) rootWorld
  have hone : evaluatedWith outputToFile = [⟨⟨⟨.null, .file 0, .stderr⟩, [outputToFile]⟩, 0, .stderr⟩] := by cbv
  have hevaluated : evaluated = _ := (congrArg (fun out => out.2.2.evaluated) hrun).symm.trans hone
  refine ⟨by with_unfolding_all rfl, hcapture, rfl, _, hone, hshares rfl hcapture _ ?_ fun r hr => ?_⟩
  · rw [hevaluated]
    exact List.mem_singleton_self _
  · rw [List.mem_singleton.1 hr]
    rfl

/-- The errors of a group are sent to a file, and those of a substitution in it are not. -/
theorem errorsToFile_misses :
    Script.ofString "{ args $(err x); } 2>f" =
        .ok [⟨⟨false, [groupedArgs errorsToFile]⟩, [], "{ args $(err x); } 2>f", 1⟩] ∧
      (∃ e, evaluatedWith errorsToFile = [e] ∧ e.around.streams.stderr = .file 0 ∧ e.errors = .stderr ∧ ¬ e.Shares) ∧
      (Run.command sampleHandlers rootWorld.state.streams (groupedArgs errorsToFile) rootWorld).2.host.stderr =
        Utf8.encode "x\n" := by
  have hone : evaluatedWith errorsToFile = [⟨⟨⟨.null, .stdout, .file 0⟩, [errorsToFile]⟩, 0, .stderr⟩] := by cbv
  refine ⟨by with_unfolding_all rfl, ⟨_, hone, rfl, rfl, fun hshares => ?_⟩, by cbv⟩
  cases hshares

end Taskwork.Shell
