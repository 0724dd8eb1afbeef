/-
The order of a run: the commands of a task are begun once, and a task ends after all its
dependencies. Every part of a run leads on by a passage, whether it ends well or not; for a task this
is shown by induction on the levels of tasks that need each other.
-/
import Taskwork.Proofs.Execution.Faults
import Taskwork.Proofs.Execution.Passage
import Taskwork.Proofs.Task.Registry

namespace Taskwork.Execution

/-! ## Parts of a run -/

/-- A part of a run that started at `p` with `es₀` on the record is a passage, and `Q` is true of
what it returns if it ends well. -/
def Leads {α : Type} (p : Progress) (es₀ : List Event) (x : Except Fault α × World × List Event)
    (Q : α → Progress → List Event → Prop) : Prop :=
  ∃ es, x.2.2 = es₀ ++ es ∧ Passage p es x.2.1.progress ∧ ∀ a, x.1 = .ok a → Q a x.2.1.progress es

namespace Leads

variable {α β : Type} {p : Progress} {es₀ es l : List Event} {w : World}

theorem pure {a : α} {Q : α → Progress → List Event → Prop} (hl : l = es₀ ++ es)
    (hp : Passage p es w.progress) (hQ : Q a w.progress es) :
    Leads p es₀ ((Pure.pure a : Recorded α) (w, l)) Q := by
  refine ⟨es, hl, hp, ?_⟩
  rintro b ⟨⟩
  exact hQ

theorem throw {f : Fault} {Q : α → Progress → List Event → Prop} (hl : l = es₀ ++ es)
    (hp : Passage p es w.progress) : Leads p es₀ ((MonadExcept.throw f : Recorded α) (w, l)) Q :=
  ⟨es, hl, hp, nofun⟩

theorem bind {x : Recorded α} {f : α → Recorded β} {Q : α → Progress → List Event → Prop}
    {R : β → Progress → List Event → Prop} (hx : Leads p es₀ (x (w, l)) Q)
    (hf : ∀ a w' l' es, l' = es₀ ++ es → Passage p es w'.progress → Q a w'.progress es →
      Leads p es₀ (f a (w', l')) R) : Leads p es₀ ((x >>= f) (w, l)) R := by
  obtain ⟨es, hes, hpass, hQ⟩ := hx
  rw [Stateful.bind_apply]
  rcases hxw : x (w, l) with ⟨result, w', l'⟩
  rw [hxw] at hes hpass hQ
  cases result with
  | error e => exact ⟨es, hes, hpass, nofun⟩
  | ok a => exact hf a w' l' es hes hpass (hQ a rfl)

/-- What a part does from where the run has come to, it does in the run. -/
theorem after {x : Except Fault α × World × List Event} {Q : α → Progress → List Event → Prop}
    (hl : l = es₀ ++ es) (hp : Passage p es w.progress) (hx : Leads w.progress l x Q) :
    Leads p es₀ x fun a q es' => ∃ fs, es' = es ++ fs ∧ Passage w.progress fs q ∧ Q a q fs := by
  obtain ⟨fs, hfs, hpass, hQ⟩ := hx
  refine ⟨es ++ fs, ?_, hp.trans hpass, fun a ha => ⟨fs, rfl, hpass, hQ a ha⟩⟩
  rw [hfs, hl, List.append_assoc]

theorem mono {x : Except Fault α × World × List Event} {Q R : α → Progress → List Event → Prop}
    (hx : Leads p es₀ x Q) (hQR : ∀ a q es, Passage p es q → Q a q es → R a q es) : Leads p es₀ x R := by
  obtain ⟨es, hes, hpass, hQ⟩ := hx
  exact ⟨es, hes, hpass, fun a ha => hQR _ _ _ hpass (hQ a ha)⟩

theorem adapt {x : Recorded α} {Q : α → Progress → List Event → Prop} (f : Fault → Fault)
    (hx : Leads p es₀ (x (w, l)) Q) : Leads p es₀ ((ExceptT.adapt f x : Recorded α) (w, l)) Q := by
  obtain ⟨es, hes, hpass, hQ⟩ := hx
  refine ⟨es, hes, hpass, fun a ha => hQ a ?_⟩
  rw [Stateful.adapt_apply] at ha
  cases hxw : (x (w, l)).1 with
  | error e => simp [hxw, Except.mapError] at ha
  | ok b => simpa [hxw, Except.mapError] using ha

end Leads

/-! ## What befalls no task -/

/-- Whatever is done, no task is started by it and none ends. -/
def Quiet {α : Type} (act : Act α) : Prop :=
  Stateful.Keeps (fun w w' => Progress.Alike w.progress w'.progress) act

namespace Quiet

variable {α β : Type}

theorem pure (a : α) : Quiet (Pure.pure a : Act α) := fun _ => .refl _

theorem throw (f : Fault) : Quiet (MonadExcept.throw f : Act α) := fun _ => .refl _

theorem bind {act : Act α} {f : α → Act β} (h : Quiet act) (hf : ∀ a, Quiet (f a)) :
    Quiet (act >>= f) :=
  Stateful.Keeps.bind h hf fun _ _ _ => Progress.Alike.trans

theorem report (level : Level) (message : String) : Quiet (Act.report level message) := fun _ => .refl _

theorem statements (h : Shell.Handlers) (s : Settings) (t : Task) :
    ∀ (script : Shell.Script) (state : Shell.State), Quiet (statements h s t script state)
  | [], state => pure state
  | statement :: rest, state => by
    unfold Execution.statements
    refine bind (report _ _) fun _ => ?_
    split
    · exact statements h s t rest state
    · intro w
      rw [Stateful.bind_ok (show (get : Act World) w = (.ok w, w) from rfl)]
      rcases Shell.Run.statement h statement ⟨state, [], w.host⟩ with ⟨result, sw⟩
      cases result with
      | error stop => exact throw (α := Shell.State) (.command t.name (.stopped stop)) { w with host := sw.host }
      | ok =>
        have hrest : Quiet (do
            Act.advance (·.count)
            if sw.state.exited then return sw.state else Execution.statements h s t rest sw.state) := by
          refine bind (fun _ => ⟨rfl, rfl⟩) fun _ => ?_
          split
          · exact pure _
          · exact statements h s t rest sw.state
        exact hrest { w with host := sw.host }

theorem settled (s : Settings) (t : Task) : Quiet (settled s t) := by
  intro w
  obtain ⟨messages, hw⟩ := settled_eq s t w
  rw [hw]
  exact .refl _

/-- It is a passage in which nothing happens. -/
theorem leads {act : Act α} (h : Quiet act) {p : Progress} {es₀ es l : List Event} {w : World}
    (hl : l = es₀ ++ es) (hp : Passage p es w.progress) :
    Leads p es₀ (Recorded.silently act (w, l)) fun _ q es' => es' = es ∧ Progress.Alike w.progress q := by
  have hpass := hp.trans (.ofAlike (h w))
  rw [List.append_nil] at hpass
  exact ⟨es, hl, hpass, fun _ _ => ⟨rfl, h w⟩⟩

end Quiet

/-! ## Runs -/

variable {h : Shell.Handlers} {s : Settings} {r : Registry}

theorem leads_commands {run : Task → Recorded Unit}
    (hrun : ∀ t w es₀, Leads w.progress es₀ (run t (w, es₀)) fun _ _ _ => True) (t : Task) :
    ∀ (cmds : List TaskCommand) (index : Nat) (state : Shell.State) (w : World) (es₀ : List Event),
      Leads w.progress es₀ (Recorded.commands h s run t index cmds state (w, es₀)) fun _ _ _ => True
  | [], index, state, w, es₀ => Leads.pure (List.append_nil _).symm (.ofAlike (.refl _)) trivial
  | .script source :: rest, index, state, w, es₀ => by
    have hstart : Passage w.progress [] w.progress := .ofAlike (.refl _)
    unfold Recorded.commands
    cases Shell.Script.ofString source with
    | error e => exact Leads.throw (List.append_nil _).symm hstart
    | ok script =>
      refine Leads.bind ((Quiet.statements h s t script state).leads (List.append_nil _).symm hstart) ?_
      rintro state w' l' es hl hpass -
      split
      · exact Leads.pure hl hpass trivial
      · exact (leads_commands hrun t rest (index + 1) state w' l').after hl hpass |>.mono
          fun _ _ _ _ _ => trivial
  | .task sub :: rest, index, state, w, es₀ => by
    refine Leads.bind (hrun sub w es₀) ?_
    rintro _ w' l' es hl hpass -
    exact (leads_commands hrun t rest (index + 1) state w' l').after hl hpass |>.mono
      fun _ _ _ _ _ => trivial

theorem leads_dependencies {run : Task → Recorded Unit} (hrun : ∀ t w es₀, Leads w.progress es₀
    (run t (w, es₀)) fun _ q _ => q.mark? t.name = some .done) (t : Task) :
    ∀ (names : List String) (w : World) (es₀ : List Event),
      Leads w.progress es₀ (Recorded.dependencies r run t names (w, es₀))
        fun _ q _ => ∀ d ∈ names, q.mark? d = some .done
  | [], w, es₀ => Leads.pure (List.append_nil _).symm (.ofAlike (.refl _)) (by simp)
  | name :: rest, w, es₀ => by
    have hstart : Passage w.progress [] w.progress := .ofAlike (.refl _)
    unfold Recorded.dependencies
    rw [Stateful.bind_ok (show Recorded.silently Act.progress (w, es₀) = (.ok w.progress, (w, es₀)) from rfl)]
    split
    · rename_i hdone
      refine (leads_dependencies hrun t rest w es₀).mono ?_
      rintro _ q es hpass hrest
      rw [List.forall_mem_cons]
      refine ⟨?_, hrest⟩
      -- what is done stays done while the others run
      rw [hpass.kept _ (hdone ▸ Option.some_ne_none _), hdone]
    · cases hget : r.get? name with
      | none => exact Leads.throw (List.append_nil _).symm hstart
      | some dependency =>
        refine Leads.bind ((hrun dependency w es₀).adapt _) ?_
        rintro _ w' l' es hl hpass hdone
        refine ((leads_dependencies hrun t rest w' l').after hl hpass).mono ?_
        rintro _ q es' - ⟨fs, -, hfs, hrest⟩
        rw [List.forall_mem_cons]
        refine ⟨?_, hrest⟩
        rw [Registry.name_of_get? hget] at hdone
        rw [hfs.kept _ (hdone ▸ Option.some_ne_none _), hdone]

/-- The commands of a task in progress are begun where they were not. -/
theorem leads_body {run : Task → Recorded Unit}
    (hrun : ∀ t w es₀, Leads w.progress es₀ (run t (w, es₀)) fun _ _ _ => True) {t : Task}
    {p : Progress} {es₀ es l : List Event} {w : World} (hl : l = es₀ ++ es) (hpass : Passage p es w.progress)
    (hp : p.mark? t.name = none) (hw : w.progress.mark? t.name = some .running)
    (hes : t.name ∉ begunNames es) :
    Leads p es₀ (Recorded.body h s r run t (w, l)) fun _ q _ =>
      ∀ n, w.progress.mark? n ≠ none → q.mark? n = w.progress.mark? n := by
  have hbegun : Leads p es₀ ((Recorded.commands h s run t 0 t.cmds
      (initialState w.host.env r.env t) >>= fun _ => return if s.dryRun then .dryRun else .executed :
        Recorded Outcome) (w, l ++ [.begun t])) fun _ q _ =>
      ∀ n, w.progress.mark? n ≠ none → q.mark? n = w.progress.mark? n := by
    have hbefore : l ++ [.begun t] = es₀ ++ (es ++ [.begun t]) := by rw [hl, List.append_assoc]
    refine Leads.bind ((leads_commands hrun t t.cmds 0 _ w _).after hbefore (hpass.begin hp hw hes)) ?_
    rintro _ w' l' es' hl' hpass' ⟨fs, -, hfs, -⟩
    exact Leads.pure hl' hpass' hfs.kept
  exact hbegun

theorem leads_taskWith {run : Bool → Task → Recorded Unit} (hrun : ∀ force t w es₀,
    Leads w.progress es₀ (run force t (w, es₀)) fun _ q _ => q.mark? t.name = some .done)
    (force : Bool) {t : Task} {w : World} (es₀ : List Event) (hw : w.progress.mark? t.name = none) :
    Leads w.progress es₀ (Recorded.taskWith h s r run force t (w, es₀)) fun _ q es =>
      q.mark? t.name = some .done ∧ ∃ before outcome, es = before ++ [.ended t outcome] := by
  have hends (outcome : Outcome) {w' : World} {l es : List Event} (hl : l = es₀ ++ es)
      (hpass : Passage w.progress es w'.progress) (hrunning : w'.progress.mark? t.name = some .running)
      (hdeps : ∀ d ∈ t.deps, w'.progress.mark? d = some .done) :
      Leads w.progress es₀ ((Recorded.silently (Act.advance (·.finish t.name outcome)) >>= fun _ =>
        Recorded.note (.ended t outcome)) (w', l)) fun _ q es =>
        q.mark? t.name = some .done ∧ ∃ before outcome, es = before ++ [.ended t outcome] := by
    refine ⟨es ++ [.ended t outcome], ?_, hpass.finish hw hrunning hdeps outcome, fun _ _ => ⟨?_, es, outcome, rfl⟩⟩
    · rw [← List.append_assoc, ← hl]
      rfl
    · exact (Progress.mark?_finish ..).trans (if_pos rfl)
  have hsettled {w' : World} {l es : List Event} (hl : l = es₀ ++ es) (hpass : Passage w.progress es w'.progress) :
      Leads w.progress es₀ ((if force then pure none else Recorded.silently (settled s t) :
        Recorded (Option Outcome)) (w', l)) fun _ q es' => es' = es ∧ Progress.Alike w'.progress q := by
    split
    · exact Leads.pure hl hpass ⟨rfl, .refl _⟩
    · exact (Quiet.settled s t).leads hl hpass
  have hstarted : (w.progress.start t.name).mark? t.name = some .running :=
    (Progress.mark?_start ..).trans (if_pos rfl)
  have hfirst := (leads_dependencies (r := r) (hrun false) t t.deps
    { w with progress := w.progress.start t.name } (es₀ ++ [.started t])).after rfl (Passage.start hw)
  unfold Recorded.taskWith
  rw [Stateful.bind_ok (show Recorded.silently (Act.advance (·.start t.name)) (w, es₀) =
      (.ok (), ({ w with progress := w.progress.start t.name }, es₀)) from rfl),
    Stateful.bind_ok (show Recorded.note (.started t) ({ w with progress := w.progress.start t.name }, es₀) =
      (.ok (), ({ w with progress := w.progress.start t.name }, es₀ ++ [.started t])) from rfl)]
  refine Leads.bind hfirst ?_
  rintro _ w₁ l₁ es₁ hl₁ hpass₁ ⟨fs, rfl, hfs, hdeps⟩
  have hrunning : w₁.progress.mark? t.name = some .running := by
    rw [hfs.kept _ (hstarted ▸ Option.some_ne_none _), hstarted]
  have hnot : t.name ∉ begunNames ([.started t] ++ fs) := by
    rw [begunNames_append]
    rintro hmem
    -- the dependencies ran while the task was in progress, so nothing befell it
    obtain ⟨e, he, hname⟩ := mem_begunNames (by simpa [begunNames] using hmem)
    have hfresh := hfs.fresh e he
    rw [hname, hstarted] at hfresh
    cases hfresh
  refine Leads.bind (hsettled hl₁ hpass₁) ?_
  rintro outcome w₂ l₂ es₂ hl₂ hpass₂ ⟨rfl, halike⟩
  rw [← halike.mark?] at hrunning
  have hdeps₂ : ∀ d ∈ t.deps, w₂.progress.mark? d = some .done := fun d hd => by
    rw [halike.mark?, hdeps d hd]
  cases outcome with
  | some outcome => exact hends outcome hl₂ hpass₂ hrunning hdeps₂
  | none =>
    refine Leads.bind (leads_body (fun t w es₀ => (hrun force t w es₀).mono fun _ _ _ _ _ => trivial)
      hl₂ hpass₂ hw hrunning hnot) ?_
    rintro outcome w₃ l₃ es₃ hl₃ hpass₃ hkept
    refine hends outcome hl₃ hpass₃ ?_ fun d hd => ?_
    · rw [hkept _ (hrunning ▸ Option.some_ne_none _), hrunning]
    · rw [hkept _ (hdeps₂ d hd ▸ Option.some_ne_none _), hdeps₂ d hd]

/-- A task that was started before is not started again. -/
theorem taskAt_of_marked (level : Nat) (force : Bool) {t : Task} {w : World} (es₀ : List Event) {m : Mark}
    (hw : w.progress.mark? t.name = some m) : Recorded.taskAt h s r level force t (w, es₀) =
      (if m = .done then .ok () else .error (.recursive t.name), (w, es₀)) := by
  unfold Recorded.taskAt
  rw [Stateful.bind_ok (show Recorded.silently Act.progress (w, es₀) = (.ok w.progress, (w, es₀)) from rfl), hw]
  cases m <;> rfl

theorem taskAt_zero (force : Bool) {t : Task} {w : World} (es₀ : List Event)
    (hw : w.progress.mark? t.name = none) :
    Recorded.taskAt h s r 0 force t (w, es₀) = (.error (.recursive t.name), (w, es₀)) := by
  unfold Recorded.taskAt
  rw [Stateful.bind_ok (show Recorded.silently Act.progress (w, es₀) = (.ok w.progress, (w, es₀)) from rfl), hw]
  rfl

theorem taskAt_succ (level : Nat) (force : Bool) {t : Task} {w : World} (es₀ : List Event)
    (hw : w.progress.mark? t.name = none) : Recorded.taskAt h s r (level + 1) force t (w, es₀) =
      Recorded.taskWith h s r (Recorded.taskAt h s r level) force t (w, es₀) := by
  conv_lhs => unfold Recorded.taskAt
  rw [Stateful.bind_ok (show Recorded.silently Act.progress (w, es₀) = (.ok w.progress, (w, es₀)) from rfl), hw]

theorem leads_marked (level : Nat) (force : Bool) {t : Task} {w : World} (es₀ : List Event) {m : Mark}
    (hw : w.progress.mark? t.name = some m) :
    Leads w.progress es₀ (Recorded.taskAt h s r level force t (w, es₀)) fun _ q es =>
      q.mark? t.name = some .done ∧ (some m = none → ∃ before outcome, es = before ++ [.ended t outcome]) := by
  rw [taskAt_of_marked level force es₀ hw]
  refine ⟨[], (List.append_nil _).symm, .ofAlike (.refl _), ?_⟩
  rintro _ hok
  cases m with
  | running => cases hok
  | done => exact ⟨hw, nofun⟩

/-- By induction on the levels; a task that is started runs those it needs one level below. -/
theorem leads_taskAt : ∀ (level : Nat) (force : Bool) (t : Task) (w : World) (es₀ : List Event),
    Leads w.progress es₀ (Recorded.taskAt h s r level force t (w, es₀)) fun _ q es =>
      q.mark? t.name = some .done ∧
        (w.progress.mark? t.name = none → ∃ before outcome, es = before ++ [.ended t outcome]) := by
  intro level
  induction level with
  | zero =>
    intro force t w es₀
    cases hmark : w.progress.mark? t.name with
    | some m => exact leads_marked 0 force es₀ hmark
    | none =>
      rw [taskAt_zero force es₀ hmark]
      refine ⟨[], (List.append_nil _).symm, .ofAlike (.refl _), ?_⟩
      rintro _ ⟨⟩
  | succ level ih =>
    intro force t w es₀
    cases hmark : w.progress.mark? t.name with
    | some m => exact leads_marked (level + 1) force es₀ hmark
    | none =>
      have hdone (force : Bool) (t : Task) (w : World) (es₀ : List Event) :=
        (ih force t w es₀).mono fun _ _ _ _ hQ => hQ.1
      rw [taskAt_succ level force es₀ hmark]
      exact (leads_taskWith hdone force es₀ hmark).mono fun _ _ _ _ hQ => ⟨hQ.1, fun _ => hQ.2⟩

/-- A run is a passage from the beginning, and one that ends well ends with the task asked for. -/
theorem passage_run {name : String} {t : Task} (hget : r.get? name = some t) (host : Host) :
    ∃ p, Passage .initial (Recorded.run h s r name host).2 p ∧
      ∀ report, (Recorded.run h s r name host).1.2 = .ok report →
        report = p.report ∧
          ∃ before outcome, (Recorded.run h s r name host).2 = before ++ [.ended t outcome] := by
  obtain ⟨es, hes, hpass, hlast⟩ := leads_taskAt (h := h.withTools) (s := s) (r := r) (maxLevels r) s.force t
    ⟨.initial, host⟩ []
  unfold Recorded.run
  rw [hget]
  dsimp only
  rcases hrun : Recorded.taskAt h.withTools s r (maxLevels r) s.force t (⟨.initial, host⟩, []) with
    ⟨result, w, es'⟩
  rw [hrun] at hes hpass hlast
  obtain rfl : es' = es := hes
  refine ⟨w.progress, ?_⟩
  cases result with
  | error f =>
    refine ⟨hpass, ?_⟩
    rintro report ⟨⟩
  | ok =>
    refine ⟨hpass, ?_⟩
    rintro report ⟨⟩
    exact ⟨rfl, (hlast () rfl).2 rfl⟩

/-- In a run the commands of no task are begun twice, and if it succeeds its outcomes are those of
different tasks, each after its dependencies and the one asked for last. -/
theorem tasks_run_once_in_order (h : Shell.Handlers) (s : Settings) (r : Registry) (name : String)
    (host : Host) :
    ∃ es, Recorded.run h s r name host = (run h s r name host, es) ∧
      ((begun es).map (·.name)).Nodup ∧
      ∀ report, (run h s r name host).2 = .ok report →
        report.outcomes = (ended es).map (fun row => (row.1.name, row.2)) ∧
        (report.outcomes.map (·.1)).Nodup ∧
        (report.outcomes.map (·.1)).getLast? = some name ∧
        ∀ before t outcome after, ended es = before ++ (t, outcome) :: after →
          ∀ d ∈ t.deps, d ∈ before.map (·.1.name) := by
  refine ⟨(Recorded.run h s r name host).2, Prod.ext (Recorded.fst_run name host) rfl, ?_⟩
  rw [← Recorded.fst_run name host]
  cases hget : r.get? name with
  | none =>
    unfold Recorded.run
    rw [hget]
    refine ⟨List.nodup_nil, ?_⟩
    rintro report ⟨⟩
  | some t =>
    obtain ⟨p, hpass, hend⟩ := passage_run (h := h) (s := s) hget host
    refine ⟨hpass.begunOnce, fun report hreport => ?_⟩
    obtain ⟨rfl, init, outcome, hes⟩ := hend report hreport
    have hnames : p.report.outcomes.map (·.1) = endedNames (Recorded.run h s r name host).2 := by
      rw [hpass.outcomes, List.map_append, List.map_map]
      rfl
    refine ⟨hpass.outcomes, ?_, ?_, ?_⟩
    · rw [hnames]
      exact hpass.endedOnce
    · rw [hnames, hes, endedNames_append]
      simp [endedNames, Registry.name_of_get? hget]
    · rintro before t' outcome' after hsplit d hd
      -- nothing was done before the run
      rcases hpass.ordered before t' outcome' after hsplit d hd with hdone | hd
      · cases hdone
      · exact hd

end Taskwork.Execution
