/-
What computing in a recipe keeps. Values come from the text of the recipe, from data that hold no tasks
and from calls of `task`; so all tasks a recipe ever holds, in its variables, in what it computes with
and in its registry, are declared. Every act of a recipe keeps this (`Eval.Keeps`): the functions that
every recipe has, then expressions and statements, over their syntax, and calls, over their depth.
-/
import Taskwork.Proofs.Recipe.Turns
import Taskwork.Proofs.Recipe.Values

namespace Taskwork.Recipe

/-- All tasks in the draft and in the variables are declared. -/
structure Machine.Sound (m : Machine) : Prop where
  draft : m.draft.Sound
  scope : ∀ row ∈ m.scope, row.2.Sound

/-- All tasks in what is given back are declared. -/
def Stop.Sound : Stop → Prop
  | .fault _ => True
  | .result v => v.Sound

namespace Eval

/-- From a sound machine it leads to a sound machine, and comes to what `Q` is true of. -/
def Keeps {α : Type} (act : Eval α) (Q : α → Prop) : Prop :=
  ∀ m : Machine, m.Sound → (act m).2.Sound ∧ match (act m).1 with
    | .ok a => Q a
    | .error stop => stop.Sound

namespace Keeps

variable {α β : Type} {act : Eval α} {Q R : α → Prop}

theorem pure {a : α} (ha : Q a) : Keeps (pure a) Q := fun _ hm => ⟨hm, ha⟩

theorem fail (problem : Problem) (pos : Pos) : Keeps (fail problem pos : Eval α) Q := fun _ hm => ⟨hm, trivial⟩

theorem get : Keeps get Machine.Sound := fun _ hm => ⟨hm, hm⟩

theorem modify {f : Machine → Machine} (hf : ∀ m, m.Sound → (f m).Sound) : Keeps (modify f) fun _ => True :=
  fun m hm => ⟨hf m hm, trivial⟩

theorem bind {S : β → Prop} {go : α → Eval β} (h : Keeps act Q) (hgo : ∀ a, Q a → Keeps (go a) S) :
    Keeps (act >>= go) S := by
  intro m hm
  obtain ⟨hm', hQ⟩ := h m hm
  rw [Stateful.bind_apply]
  rcases hact : act m with ⟨stop | a, m'⟩ <;> rw [hact] at hm' hQ
  · exact ⟨hm', hQ⟩
  · exact hgo a hQ m' hm'

theorem imp (h : Keeps act Q) (hQR : ∀ a, Q a → R a) : Keeps act R := by
  intro m hm
  obtain ⟨hm', hQ⟩ := h m hm
  refine ⟨hm', ?_⟩
  split
  · rename_i a ha
    rw [ha] at hQ
    exact hQR a hQ
  · rename_i stop hstop
    rw [hstop] at hQ
    exact hQ

theorem ite {c : Prop} [Decidable c] {yes no : Eval α} (hyes : Keeps yes Q) (hno : Keeps no Q) :
    Keeps (if c then yes else no) Q := by
  split
  · exact hyes
  · exact hno

theorem giveBack {v : Value} (hv : v.Sound) : Keeps (throw (.result v) : Eval α) Q := fun _ hm => ⟨hm, hv⟩

theorem forM {step : α → Eval Unit} :
    ∀ as : List α, (∀ a ∈ as, Keeps (step a) fun _ => True) → Keeps (as.forM step) fun _ => True
  | [], _ => pure trivial
  | a :: as, h => (h a List.mem_cons_self).bind fun _ _ => forM as fun b hb => h b (List.mem_cons_of_mem _ hb)

/-! ## Machines -/

theorem draft : Keeps draft Draft.Sound := get.bind fun _ hm => pure hm.draft

theorem setDraft {d : Draft} (hd : d.Sound) : Keeps (setDraft d) fun _ => True := modify fun _ hm => ⟨hd, hm.scope⟩

theorem files : Keeps files fun _ => True := get.bind fun _ _ => pure trivial

theorem report (level : Level) (message : String) : Keeps (report level message) fun _ => True :=
  modify fun _ hm => ⟨hm.draft, hm.scope⟩

theorem reportAt (level : Level) (pos : Pos) (message : String) : Keeps (reportAt level pos message) fun _ => True :=
  draft.bind fun _ _ => report _ _

theorem variable_ (name : String) (pos : Pos) : Keeps (variable_ name pos) Value.Sound := by
  refine get.bind fun m hm => ?_
  split
  · rename_i v hv
    exact pure (hm.scope _ (Value.mem_of_lookup hv))
  · exact fail _ _

theorem declare (name : String) {v : Value} (hv : v.Sound) : Keeps (declare name v) fun _ => True :=
  modify fun _ hm => ⟨hm.draft, List.forall_mem_cons.2 ⟨hv, hm.scope⟩⟩

theorem sound_assign (name : String) {f : Value → Value} (hf : ∀ v, v.Sound → (f v).Sound) :
    ∀ scope : List (String × Value), (∀ row ∈ scope, row.2.Sound) →
      ∀ row ∈ assign name f scope, row.2.Sound
  | [], h => h
  | (k, v) :: rest, h => by
    rw [List.forall_mem_cons] at h
    unfold assign
    split
    · exact List.forall_mem_cons.2 ⟨hf v h.1, h.2⟩
    · exact List.forall_mem_cons.2 ⟨h.1, sound_assign name hf rest h.2⟩

theorem keep (spot : Spot) {v : Value} (hv : v.Sound) : Keeps (keep spot v) fun _ => True :=
  modify fun _ hm => ⟨hm.draft, sound_assign _ (Value.sound_replace hv spot.steps) _ hm.scope⟩

theorem inBlock (h : Keeps act Q) : Keeps (inBlock act) Q :=
  get.bind fun before _ => h.bind fun _ ha =>
    (modify (f := fun m => { m with scope := m.scope.drop (m.scope.length - before.scope.length) })
      fun _ hm => ⟨hm.draft, fun row hrow => hm.scope row (List.mem_of_mem_drop hrow)⟩).bind fun _ _ => pure ha

theorem framed {scope : List (String × Value)} (hscope : ∀ row ∈ scope, row.2.Sound) {act : Eval Value}
    (h : Keeps act Value.Sound) : Keeps (framed scope act) Value.Sound := by
  intro m hm
  obtain ⟨hm', hv⟩ := h { m with scope } ⟨hm.draft, hscope⟩
  unfold Eval.framed
  rcases hact : act { m with scope } with ⟨(f | v) | v, m'⟩ <;> rw [hact] at hm' hv
  · exact ⟨⟨hm'.draft, hm.scope⟩, hv⟩
  · exact ⟨⟨hm'.draft, hm.scope⟩, hv⟩
  · exact ⟨⟨hm'.draft, hm.scope⟩, hv⟩

theorem property {v : Value} (hv : v.Sound) (name : String) (pos : Pos) :
    Keeps (property v name pos) Value.Sound := by
  unfold Eval.property
  split
  · exact pure (Value.sound_lookup (Value.sound_map_iff.1 hv))
  · exact pure (.plain rfl)
  · exact pure (.plain rfl)
  · exact pure (.plain rfl)
  · exact fail _ _

theorem item {v : Value} (hv : v.Sound) (index : Value) (pos : Pos) : Keeps (item v index pos) Value.Sound := by
  unfold Eval.item
  split
  · split
    · rename_i w hw
      obtain ⟨i, -, hw⟩ := Option.bind_eq_some_iff.1 hw
      exact pure (Value.sound_array_iff.1 hv w (List.mem_of_getElem? hw))
    · exact fail _ _
  · exact pure (Value.sound_lookup (Value.sound_map_iff.1 hv))
  · exact fail _ _

/-! ## The functions that every recipe has -/

theorem option (o : OptionDeclaration) (pos : Pos) : Keeps (Builtin.option o pos) Value.Sound := by
  refine draft.bind fun d hd => ?_
  split
  · exact fail _ _
  · rename_i d' value hdeclared
    exact (setDraft (hd.declareOption hdeclared)).bind fun _ _ => pure (.plain rfl)

/-- A task that is declared is. -/
theorem task {rows : List (String × Value)} (hrows : (Value.map rows).Sound) (pos : Pos) :
    Keeps (Builtin.task rows pos) Value.Sound := by
  refine draft.bind fun d hd => ?_
  split
  · exact fail _ _
  · rename_i d' t hdeclared
    have ht : (Value.task t).Sound := Value.sound_task_iff.2 (.call hrows hdeclared)
    exact (setDraft (hd.declareTask hrows hdeclared)).bind fun _ _ =>
      ite ((reportAt _ _ _).bind fun _ _ => pure ht) (pure ht)

theorem resolve (fragments : List String) : Keeps (Builtin.resolve fragments) Value.Sound :=
  draft.bind fun _ _ => pure (.plain rfl)

theorem resolvePath (parts : List Value) (rows : List (String × Value)) (pos : Pos) :
    Keeps (Builtin.resolvePath parts rows pos) Value.Sound := by
  refine draft.bind fun _ _ => ?_
  split
  · exact pure (.plain rfl)
  · exact fail _ _

theorem check (name : String) (kind : Files → String → Bool) (v : Value) (pos : Pos) :
    Keeps (Builtin.check name kind v pos) Value.Sound := by
  unfold Builtin.check
  split
  · exact fail _ _
  · exact files.bind fun _ _ => draft.bind fun _ _ => pure (.plain rfl)

theorem getEnv (name : String) : Keeps (Builtin.getEnv name) Value.Sound :=
  draft.bind fun _ _ => get.bind fun _ _ => pure (.plain rfl)

theorem setEnv (name value : String) : Keeps (Builtin.setEnv name value) Value.Sound :=
  draft.bind fun _ hd => (setDraft (hd.setEnv name value)).bind fun _ _ => pure (.plain rfl)

theorem prependPath (v : Value) (pos : Pos) : Keeps (Builtin.prependPath v pos) Value.Sound := by
  unfold Builtin.prependPath
  split
  · exact fail _ _
  · exact draft.bind fun d hd => get.bind fun m _ =>
      (setDraft (hd.setEnv "PATH" _)).bind fun _ _ => pure (.plain rfl)

theorem outputOf (h : Shell.Handlers) (script : Shell.Script) (showErrors : Bool) :
    Keeps (Builtin.outputOf h script showErrors) fun _ => True := by
  intro m hm
  exact ⟨⟨hm.draft, hm.scope⟩, trivial⟩

theorem execute (h : Shell.Handlers) (command : Value) (format : String) (showErrors : Bool) (pos : Pos) :
    Keeps (Builtin.execute h command format showErrors pos) Value.Sound := by
  unfold Builtin.execute
  -- nothing follows a failure, so what is said of its result is not to be true
  refine ite ((fail _ _).bind (Q := fun _ => False) fun _ => nofun) (draft.bind fun d _ => ?_)
  split
  · exact fail _ _
  split
  · exact fail _ _
  refine (outputOf h _ showErrors).bind fun output _ => ?_
  split
  · exact ite ((reportAt _ _ _).bind fun _ _ => pure (.plain rfl)) (pure (.plain rfl))
  · refine ite ?_ (pure (.plain rfl))
    dsimp only
    split
    · exact pure (Value.sound_ofJson _)
    · exact fail _ _

/-- Reading a document only keeps it. -/
theorem sound_document {d d' : Draft} {fs : Files} {path : String} {node : Yaml.Node} (hd : d.Sound)
    (h : Builtin.document d fs path = .ok (d', node)) : d'.Sound := by
  obtain ⟨documents, rfl⟩ := Builtin.document_cases h
  exact ⟨hd.registry, hd.env⟩

theorem sound_valueIn {node : Yaml.Node} {key : String} {default v : Value} (hdefault : default.Sound)
    (h : Builtin.valueIn node key default = .ok v) : v.Sound := by
  unfold Builtin.valueIn at h
  obtain ⟨found, -, h⟩ := exists_of_bind_ok h
  split at h
  · cases h
    exact hdefault
  · split at h
    · rename_i hscalar
      cases h
      exact Value.sound_ofScalar? hscalar
    · cases h

theorem readYaml (file key : String) {default : Value} (hdefault : default.Sound) (pos : Pos) :
    Keeps (Builtin.readYaml file key default pos) Value.Sound := by
  refine draft.bind fun d hd => files.bind fun fs _ => ?_
  split
  · exact fail _ _
  · rename_i d' node hdocument
    refine (setDraft (sound_document hd hdocument)).bind fun _ _ => ?_
    split
    · rename_i v hv
      exact pure (sound_valueIn hdefault hv)
    · exact fail _ _

theorem call? {h : Shell.Handlers} {name : String} {args : List Value} {pos : Pos} {act : Eval Value}
    (hargs : ∀ v ∈ args, v.Sound) (hcall : Builtin.call? h name args pos = some act) : Keeps act Value.Sound := by
  unfold Builtin.call? at hcall
  split at hcall <;> cases hcall
  · exact option _ _
  · exact option _ _
  · exact task (hargs _ List.mem_cons_self) _
  · exact resolve _
  · exact resolve _
  · exact resolve _
  · exact resolvePath _ _ _
  · exact resolvePath _ _ _
  · exact check _ _ _ _
  · exact check _ _ _ _
  · exact getEnv _
  · exact setEnv _ _
  · exact prependPath _ _
  · exact pure (.plain rfl)
  · exact pure (.plain rfl)
  · exact execute _ _ _ _ _
  · exact execute _ _ _ _ _
  · exact execute _ _ _ _ _
  · exact readYaml _ _ (hargs _ (by simp)) _
  · exact (reportAt _ _ _).bind fun _ _ => pure (.plain rfl)
  · exact (reportAt _ _ _).bind fun _ _ => pure (.plain rfl)
  · exact fail _ _
  · exact pure (.plain rfl)
  · exact pure (.plain rfl)
  · exact (report _ _).bind fun _ _ => pure (.plain rfl)
  · exact (report _ _).bind fun _ _ => pure (.plain rfl)
  · exact pure (.plain rfl)
  · exact pure (.plain rfl)
  · exact pure (.plain rfl)
  · exact pure (.plain rfl)

/-! ## Expressions and statements -/

theorem operation {name : String} {args : List Value} {result : Except OperationFault Value} {pos : Pos}
    (hresult : ∀ v, result = .ok v → v.Sound) : Keeps (operation name args result pos) Value.Sound := by
  unfold Eval.operation
  split
  · exact pure (hresult _ rfl)
  · exact fail _ _
  · exact fail _ _

variable {h : Shell.Handlers} {p : Program} {call : Function → List Value → Pos → Eval Value}

/-- Calls of functions keep it too. -/
def OfCalls (call : Function → List Value → Pos → Eval Value) : Prop :=
  ∀ f args pos, (∀ v ∈ args, v.Sound) → Keeps (call f args pos) Value.Sound

theorem invoke (hcall : OfCalls call) (name : String) (isMethod : Bool) {args : List Value}
    (hargs : ∀ v ∈ args, v.Sound) (spot : Option Spot) (pos : Pos) :
    Keeps (invoke h p call name isMethod args spot pos) Value.Sound := by
  unfold Eval.invoke
  dsimp only
  split
  · refine hcall _ _ _ ?_
    split
    · exact fun v hv => hargs v (List.mem_of_mem_drop hv)
    · exact hargs
  · split
    · split
      · refine (keep _ ?_).bind fun _ _ => pure (.plain rfl)
        exact .plain rfl
      · exact pure (.plain rfl)
    · split
      · rename_i hbuiltin
        exact call? hargs hbuiltin
      · exact fail _ _

mutual

theorem expr (hcall : OfCalls call) : ∀ e : Expr, Keeps (expr h p call e) fun a => a.1.Sound
  | .unit | .bool _ | .int _ | .float _ | .text _ => pure (.plain rfl)
  | .var name pos => (variable_ name pos).bind fun _ hv => pure hv
  | .array items => (exprs hcall items).bind fun _ hvs => pure (Value.sound_array_iff.2 hvs)
  | .map rows => (entries hcall rows [] nofun).bind fun _ hrows => pure (Value.sound_map_iff.2 hrows)
  | .call name [] pos => (invoke hcall name false (List.forall_mem_nil _) none pos).bind fun _ hv => pure hv
  | .call name (first :: rest) pos =>
    (expr hcall first).bind fun _ hv => (exprs hcall rest).bind fun _ hvs =>
      (invoke hcall name false (List.forall_mem_cons.2 ⟨hv, hvs⟩) _ pos).bind fun _ hv => pure hv
  | .method target name args pos =>
    (expr hcall target).bind fun _ hv => (exprs hcall args).bind fun _ hvs =>
      (invoke hcall name true (List.forall_mem_cons.2 ⟨hv, hvs⟩) _ pos).bind fun _ hv => pure hv
  | .property target name pos => (expr hcall target).bind fun _ hv => (property hv name pos).bind fun _ hv => pure hv
  | .index target index pos =>
    (expr hcall target).bind fun _ hv => (expr hcall index).bind fun _ _ => (item hv _ pos).bind fun _ hv => pure hv
  | .binary op left right pos =>
    (expr hcall left).bind fun _ ha => (expr hcall right).bind fun _ hb =>
      (operation fun _ hv => Value.sound_apply ha hb hv).bind fun _ hv => pure hv
  | .negate e pos =>
    (expr hcall e).bind fun _ _ => (operation fun _ hw => Value.sound_opposite hw).bind fun _ hv => pure hv
  | .choose condition pos yes no => (expr hcall condition).bind fun a _ => by
    split
    · exact (inBlock (body hcall yes)).bind fun _ hv => pure hv
    · exact (inBlock (body hcall no)).bind fun _ hv => pure hv
    · exact fail _ _
  | .block statements => (inBlock (body hcall statements)).bind fun _ hv => pure hv

theorem exprs (hcall : OfCalls call) : ∀ es : List Expr, Keeps (exprs h p call es) fun vs => ∀ v ∈ vs, v.Sound
  | [] => pure nofun
  | e :: rest =>
    (expr hcall e).bind fun _ hv => (exprs hcall rest).bind fun _ hvs => pure (List.forall_mem_cons.2 ⟨hv, hvs⟩)

theorem entries (hcall : OfCalls call) : ∀ (es : List (String × Expr)) (rows : List (String × Value)),
    (∀ row ∈ rows, row.2.Sound) → Keeps (entries h p call es rows) fun rows => ∀ row ∈ rows, row.2.Sound
  | [], _, hrows => pure hrows
  | (_, e) :: rest, _, hrows => (expr hcall e).bind fun _ hv => entries hcall rest _ (Value.sound_store hv hrows)

theorem body (hcall : OfCalls call) : ∀ statements : List Stmt, Keeps (body h p call statements) Value.Sound
  | [] => pure (.plain rfl)
  | [last] => stmt hcall last
  | s :: next :: rest => (stmt hcall s).bind fun _ _ => body hcall (next :: rest)

theorem stmt (hcall : OfCalls call) : ∀ s : Stmt, Keeps (stmt h p call s) Value.Sound
  | .expr e => (expr hcall e).bind fun _ hv => pure hv
  | .letVar name e => (expr hcall e).bind fun _ hv => (declare name hv).bind fun _ _ => pure (.plain rfl)
  | .forIn name items pos statements => (expr hcall items).bind fun a hv => by
    split
    · rename_i vs _
      refine (forM vs fun v hmem => inBlock ((declare name (Value.sound_array_iff.1 hv v hmem)).bind fun _ _ =>
        (body hcall statements).bind fun _ _ => pure trivial)).bind fun _ _ => pure (.plain rfl)
    · exact fail _ _
  | .giveBack e => (expr hcall e).bind fun _ hv => giveBack hv
  | .load e pos => (expr hcall e).bind fun _ _ => by
    split
    · exact fail _ _
    · exact fail _ _

end

/-! ## Calls -/

theorem relocated (pos : Pos) {act : Eval Value} (hact : Keeps act Value.Sound) :
    Keeps (relocated pos act) Value.Sound := by
  intro m hm
  obtain ⟨hm', hv⟩ := hact m hm
  unfold Eval.relocated
  split
  · rename_i heq
    rw [heq] at hm'
    exact ⟨hm', trivial⟩
  · exact ⟨hm', hv⟩

theorem callAt : ∀ level : Nat, OfCalls (callAt h p level)
  | 0 => fun _ _ _ _ => fail _ _
  | level + 1 => fun f args pos hargs => by
    -- a function sees its arguments and no other variables
    unfold Eval.callAt
    refine relocated pos (framed (fun row hrow => ?_) (body (callAt level) f.body))
    exact hargs _ (List.of_mem_zip (List.mem_reverse.1 hrow)).2

end Keeps

/-! ## Whole recipes -/

variable {h : Shell.Handlers} {p : Program} {m : Machine}

theorem keeps_body (statements : List Stmt) : Keeps (body h p (callAt h p maxCalls) statements) Value.Sound :=
  .body (.callAt maxCalls) statements

theorem sound_topLevel (hm : m.Sound) : (topLevel h p m).2.Sound := by
  have hbody := (keeps_body (h := h) (p := p) p.body m hm).1
  unfold topLevel
  split
  · rename_i heq
    rwa [heq] at hbody
  · rename_i heq
    rwa [heq] at hbody

theorem sound_configure {f : Function} {options : Value} (hoptions : options.Sound) (hm : m.Sound) :
    (configure h p f options m).2.Sound := by
  have hscope : ∀ row ∈ (f.params.map fun name => (name, options)) ++ m.scope, row.2.Sound := by
    refine List.forall_mem_append.2 ⟨fun row hrow => ?_, hm.scope⟩
    obtain ⟨_, -, rfl⟩ := List.mem_map.1 hrow
    exact hoptions
  have hcall := (Keeps.relocated .none (.framed hscope (keeps_body (h := h) (p := p) f.body)) m hm).1
  unfold configure
  dsimp only
  split
  · rename_i heq
    rwa [heq] at hcall
  · rename_i heq
    rwa [heq] at hcall

end Eval

/-- Sound machines lead to sound machines. -/
def Machine.Kept (m m' : Machine) : Prop := m.Sound → m'.Sound

theorem Machine.Kept.trans {m m' m'' : Machine} (h : m.Kept m') (h' : m'.Kept m'') : m.Kept m'' := h' ∘ h

theorem Program.keeps_run {h : Shell.Handlers} (p : Program) (file : String) (optionsOnly : Bool) :
    Stateful.Keeps Machine.Kept (p.run h file optionsOnly) := by
  unfold Program.run
  dsimp only
  refine Stateful.Keeps.bind (fun m hm => ?_) (fun _ => ?_) fun _ _ _ => Machine.Kept.trans
  · have htop : Machine.Sound (Eval.topLevel h p m).2 := Eval.sound_topLevel hm
    split <;> rename_i heq <;> rw [heq] at htop <;> exact htop
  split
  · exact fun _ => id
  split
  · exact fun _ => id
  rename_i f hf
  intro m hm
  have hoptions : (Value.map (m.draft.optionTable.map fun row => (row.1, .text row.2))).Sound := by
    refine Value.sound_map_iff.2 fun row hrow => ?_
    obtain ⟨_, -, rfl⟩ := List.mem_map.1 hrow
    exact .plain rfl
  have hphase : Machine.Sound { m with draft := { m.draft with phase := .configuring } } :=
    ⟨⟨hm.draft.registry, hm.draft.env⟩, hm.scope⟩
  have hconfigure : Machine.Sound (Eval.configure h p f _ _).2 := Eval.sound_configure hoptions hphase
  rw [Stateful.get_bind, Stateful.modify_bind]
  split <;> rename_i heq <;> rw [heq] at hconfigure <;> exact hconfigure

theorem Machine.sound_initial (site : Site) (given : Table) (host : Host) :
    Machine.Sound ⟨.initial site given, host, []⟩ := ⟨.initial site given, nofun⟩

/-- The registry that a recipe gives holds what it declared. -/
theorem built_of_evaluateText {h : Shell.Handlers} {site : Site} {given : Table} {optionsOnly : Bool} {text : String}
    {host host' : Host} {e : Evaluation}
    (heval : evaluateText h site given optionsOnly text host = (host', .ok e)) : Built e.registry := by
  unfold evaluateText at heval
  split at heval
  · cases heval
  · rename_i p _
    have hrun := p.keeps_run (h := h) site.shown optionsOnly _ (Machine.sound_initial site given host)
    split at heval
    · cases heval
    · rename_i m hm
      rw [hm] at hrun
      cases heval
      exact hrun.draft.registry.setEnv hrun.draft.env

theorem built_of_evaluate {h : Shell.Handlers} {script projectRoot : String} {given : Table} {optionsOnly : Bool}
    {host host' : Host} {e : Evaluation}
    (heval : evaluate h script projectRoot given optionsOnly host = (host', .ok e)) : Built e.registry := by
  unfold evaluate at heval
  dsimp only at heval
  split at heval
  · cases heval
  · exact built_of_evaluateText heval

end Taskwork.Recipe
