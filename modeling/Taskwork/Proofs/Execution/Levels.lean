/-
How deep a run goes, and what it takes for a cycle. The tasks in progress are always those of the
calls that are not over, each of which needs the next; so there are never more of them than the
registry holds, whatever was to be done beyond that, and a task that is found in progress does need
itself.
-/
import Taskwork.Proofs.Execution.Faults
import Taskwork.Proofs.Execution.Order
import Taskwork.Proofs.Task.Needs

namespace Taskwork.Execution

/-! ## Faults that no task in progress causes -/

/-- It does not fail for a task that is found in progress. -/
def Apart {α : Type} (result : Except Fault α) : Prop :=
  ∀ f, result = .error f → ∀ n, f.rootCause ≠ .recursive n

namespace Apart

variable {α : Type}

theorem ok (a : α) : Apart (.ok a) := fun _ => nofun

end Apart

/-! ## Runs side by side -/

/-- The tasks in progress are those of these names. -/
def Busy (p : Progress) (names : List String) : Prop := ∀ n, p.mark? n = some .running ↔ n ∈ names

theorem Busy.ofAlike {p q : Progress} {names : List String} (h : Busy p names) (halike : Progress.Alike p q) :
    Busy q names := fun n => by rw [halike.mark?, h n]

theorem Busy.start {p : Progress} {names : List String} (h : Busy p names) (name : String) :
    Busy (p.start name) (name :: names) := fun n => by
  rw [Progress.mark?_start, List.mem_cons, ← h n]
  by_cases hn : n = name <;> simp [hn]

theorem Busy.finish {p : Progress} {name : String} {names : List String} (h : Busy p (name :: names))
    (hname : name ∉ names) (outcome : Outcome) : Busy (p.finish name outcome) names := fun n => by
  rw [Progress.mark?_finish]
  by_cases hn : n = name
  · simp [hn, hname]
  · rw [if_neg hn, h n, List.mem_cons, or_iff_right hn]

/-- Two ways to do something while the tasks of the names `S` are in progress: they do the same and
leave those of `S'` in progress, and if they fail because a task was found in progress it is one in a
cycle (`C`). -/
def Coincide {α : Type} (C : String → Prop) (S S' : List String) (x y : Act α) : Prop :=
  ∀ w, Busy w.progress S → x w = y w ∧ match (x w).1 with
    | .ok _ => Busy (x w).2.progress S'
    | .error f => ∀ n, f.rootCause = .recursive n → C n

namespace Coincide

variable {α β : Type} {C : String → Prop} {S S' S'' : List String}

theorem pure (a : α) : Coincide C S S (Pure.pure a : Act α) (Pure.pure a) := fun _ hw => ⟨rfl, hw⟩

theorem throw {f : Fault} (h : ∀ n, f.rootCause = .recursive n → C n) :
    Coincide C S S' (MonadExcept.throw f : Act α) (MonadExcept.throw f) := fun _ _ => ⟨rfl, h⟩

theorem bind {x y : Act α} {f g : α → Act β} (h : Coincide C S S' x y)
    (hfg : ∀ a, Coincide C S' S'' (f a) (g a)) : Coincide C S S'' (x >>= f) (y >>= g) := by
  intro w hw
  obtain ⟨heq, hx⟩ := h w hw
  rw [Stateful.bind_apply, Stateful.bind_apply, ← heq]
  rcases hxw : x w with ⟨_ | a, w'⟩ <;> rw [hxw] at hx
  · exact ⟨rfl, hx⟩
  · exact hfg a w' hx

theorem adapt {x y : Act α} {g : Fault → Fault} (hg : ∀ f, (g f).rootCause = f.rootCause)
    (h : Coincide C S S' x y) : Coincide C S S' (ExceptT.adapt g x) (ExceptT.adapt g y) := by
  intro w hw
  obtain ⟨heq, hx⟩ := h w hw
  rw [Stateful.adapt_apply, Stateful.adapt_apply, ← heq]
  refine ⟨rfl, ?_⟩
  rcases hxw : x w with ⟨f | a, w'⟩ <;> rw [hxw] at hx
  · intro n hn
    exact hx n ((hg f).symm.trans hn)
  · exact hx

/-- What changes the progress. -/
theorem advance {f : Progress → Progress} (h : ∀ p, Busy p S → Busy (f p) S') :
    Coincide C S S' (Act.advance f) (Act.advance f) := fun w hw => ⟨rfl, h w.progress hw⟩

/-- What befalls no task and does not fail for one in progress. -/
theorem refl {act : Act α} (hquiet : Quiet act) (hapart : ∀ w, Apart (act w).1) : Coincide C S S act act := by
  intro w hbusy
  refine ⟨rfl, ?_⟩
  have hw := hquiet w
  have hf := hapart w
  rcases hact : act w with ⟨f | a, w'⟩ <;> rw [hact] at hw hf
  · exact fun n hn => absurd hn (hf f rfl n)
  · exact hbusy.ofAlike hw

end Coincide

variable {h : Shell.Handlers} {s : Settings} {r : Registry}

theorem apart_statements (t : Task) (script : Shell.Script) (state : Shell.State) (w : World) :
    Apart (statements h s t script state w).1 := by
  intro f hf n hn
  obtain ⟨stop, rfl⟩ := throws_statements t script state w f hf
  cases hn

theorem apart_settled (t : Task) (w : World) : Apart (settled s t w).1 := by
  intro f hf n hn
  obtain ⟨hkind, -⟩ := throws_settled t w f hf
  rw [hkind.rootCause] at hn
  subst hn
  exact hkind

/-! ## Parts of a run -/

variable {C : String → Prop} {S : List String}

theorem coincide_dependencies {run run' : Task → Act Unit} {t : Task} :
    ∀ {names : List String}, (∀ name ∈ names, ∀ u, r.get? name = some u → Coincide C S S (run u) (run' u)) →
      Coincide C S S (dependencies r run t names) (dependencies r run' t names)
  | [], _ => Coincide.pure ()
  | name :: rest, hrun => by
    have hrest := coincide_dependencies (t := t) fun d hd => hrun d (List.mem_cons_of_mem _ hd)
    unfold dependencies
    refine Coincide.bind (Coincide.refl (fun _ => .refl _) fun _ => Apart.ok _) fun p => ?_
    split
    · exact hrest
    · cases hget : r.get? name with
      | none => exact Coincide.throw fun _ h => by cases h
      | some u =>
        exact Coincide.bind ((hrun name List.mem_cons_self u hget).adapt fun _ => rfl) fun _ => hrest

theorem coincide_commands {run run' : Task → Act Unit} {t : Task} :
    ∀ {cmds : List TaskCommand} {index : Nat} {state : Shell.State},
      (∀ u ∈ Task.embedded cmds, Coincide C S S (run u) (run' u)) →
        Coincide C S S (commands h s run t index cmds state) (commands h s run' t index cmds state)
  | [], _, _, _ => Coincide.pure ()
  | .script source :: rest, index, state, hrun => by
    unfold commands
    cases Shell.Script.ofString source with
    | error e => exact Coincide.throw fun _ h => by cases h
    | ok script =>
      refine Coincide.bind (Coincide.refl (Quiet.statements h s t script state) (apart_statements t script state))
        fun state => ?_
      split
      · exact Coincide.pure ()
      · exact coincide_commands hrun
  | .task sub :: rest, index, state, hrun =>
    Coincide.bind (hrun sub List.mem_cons_self) fun _ =>
      coincide_commands fun u hu => hrun u (List.mem_cons_of_mem _ hu)

theorem coincide_body {run run' : Task → Act Unit} {t : Task}
    (hrun : ∀ u ∈ t.subTasks, Coincide C S S (run u) (run' u)) :
    Coincide C S S (body h s r run t) (body h s r run' t) := by
  unfold body
  exact Coincide.bind (Coincide.refl (fun _ => .refl _) fun _ => Apart.ok _) fun _ =>
    Coincide.bind (coincide_commands hrun) fun _ => Coincide.pure _

/-- A task is in progress while the tasks it needs are run, and not before and after. -/
theorem coincide_taskWith {run run' : Bool → Task → Act Unit} {t : Task} {force : Bool} (ht : t.name ∉ S)
    (hrun : ∀ force u, r.Needs t u → Coincide C (t.name :: S) (t.name :: S) (run force u) (run' force u)) :
    Coincide C S S (taskWith h s r run force t) (taskWith h s r run' force t) := by
  unfold taskWith
  refine Coincide.bind (Coincide.advance fun _ hp => hp.start t.name) fun _ => ?_
  refine Coincide.bind (coincide_dependencies fun d hd u hu => hrun false u (.dependency hd hu)) fun _ => ?_
  have hsettled : Coincide C (t.name :: S) (t.name :: S) (if force then pure none else settled s t)
      (if force then pure none else settled s t) := by
    split
    · exact Coincide.pure none
    · exact Coincide.refl (Quiet.settled s t) (apart_settled t)
  refine Coincide.bind hsettled fun settled => ?_
  cases settled with
  | some outcome => exact Coincide.bind (Coincide.pure outcome) fun _ => Coincide.advance fun _ hp => hp.finish ht _
  | none =>
    exact Coincide.bind (coincide_body fun u hu => hrun force u (.command hu)) fun _ =>
      Coincide.advance fun _ hp => hp.finish ht _

/-! ## Levels -/

variable (h s r)

/-- Runs a task as `taskAt` does, but does something else when the levels are used up. -/
def taskFrom (bottom : (force : Bool) → Task → Act Unit) : Nat → (force : Bool) → Task → Act Unit
  | level, force, t => do
    match (← Act.progress).mark? t.name with
    | some .done => return
    | some .running => throw (.recursive t.name)
    | none =>
      match level with
      | 0 => bottom force t
      | level + 1 => taskWith h s r (taskFrom bottom level) force t

/-- A run of so many levels. -/
def runFrom (bottom : (force : Bool) → Task → Act Unit) (levels : Nat) (name : String) (host : Host) :
    Host × Except Fault Report :=
  match r.get? name with
  | none => (host, .error (.notFound name))
  | some t =>
    match taskFrom h.withTools s r bottom levels s.force t ⟨.initial, host⟩ with
    | (.ok (), w) => (w.host, .ok w.progress.report)
    | (.error f, w) => (w.host, .error f)

variable {h s r}

theorem taskFrom_apply {bottom : Bool → Task → Act Unit} {level : Nat} {force : Bool} {t : Task} {w : World} :
    taskFrom h s r bottom level force t w = match w.progress.mark? t.name with
      | some .done => (.ok (), w)
      | some .running => (.error (.recursive t.name), w)
      | none => match level with
        | 0 => bottom force t w
        | level + 1 => taskWith h s r (taskFrom h s r bottom level) force t w := by
  conv_lhs => unfold taskFrom
  rw [Stateful.bind_ok (show Act.progress w = (.ok w.progress, w) from rfl)]
  cases w.progress.mark? t.name with
  | none => cases level <;> rfl
  | some m => cases m <;> rfl

theorem taskAt_eq_taskFrom (level : Nat) :
    taskAt h s r level = taskFrom h s r (fun _ t => throw (.recursive t.name)) level := by
  induction level with
  | zero =>
    funext force t
    unfold taskAt taskFrom
    rfl
  | succ level ih =>
    funext force t w
    unfold taskAt
    rw [Stateful.bind_ok (show Act.progress w = (.ok w.progress, w) from rfl), taskFrom_apply]
    cases w.progress.mark? t.name with
    | none => exact congrArg (fun run => taskWith h s r run force t w) ih
    | some m => cases m <;> rfl

/-- The levels are never used up: as many tasks are in progress as levels have been gone down, and that
are fewer than the registry holds as long as one is found that has not been started. -/
theorem coincide_taskFrom {root : Task} (hroot : root ∈ r.held) (bottom bottom' : Bool → Task → Act Unit) :
    ∀ {level level' : Nat} (force : Bool) {stack : List Task} {t : Task}, r.Called root stack t →
      (stack.map (·.name)).Nodup → maxLevels r ≤ stack.length + level → maxLevels r ≤ stack.length + level' →
        Coincide (r.InCycle root) (stack.map (·.name)) (stack.map (·.name))
          (taskFrom h s r bottom level force t) (taskFrom h s r bottom' level' force t) := by
  intro level level' force stack t hcalled hnodup hle hle' w hbusy
  rw [taskFrom_apply, taskFrom_apply]
  cases hmark : w.progress.mark? t.name with
  | some m =>
    cases m with
    | done => exact ⟨rfl, hbusy⟩
    | running =>
      refine ⟨rfl, ?_⟩
      rintro n ⟨⟩
      obtain ⟨u, hu, hname⟩ := List.mem_map.1 ((hbusy t.name).1 hmark)
      obtain ⟨hreach, hneeds⟩ := hcalled.reaches_from hu
      exact ⟨u, t, hreach, hneeds, hname, rfl⟩
  | none =>
    have hfree : t.name ∉ stack.map (·.name) := fun hmem => by
      rw [(hbusy t.name).2 hmem] at hmark
      cases hmark
    have hnodup' : ((t :: stack).map (·.name)).Nodup := List.nodup_cons.2 ⟨hfree, hnodup⟩
    have hlength : stack.length + 1 ≤ maxLevels r := hcalled.length_le hroot hnodup'
    cases level with
    | zero => omega
    | succ level =>
      cases level' with
      | zero => omega
      | succ level' =>
        refine coincide_taskWith hfree (fun force u hu => ?_) w hbusy
        have hcalled' : r.Called root (t :: stack) u := ⟨hu, hcalled⟩
        refine coincide_taskFrom hroot bottom bottom' force hcalled' hnodup' ?_ ?_
        · rw [List.length_cons]; omega
        · rw [List.length_cons]; omega
termination_by level => level

/-- A run goes no deeper than the registry holds tasks, whatever would be done there; and what it finds
in progress is in a cycle. -/
theorem coincide_run (bottom bottom' : Bool → Task → Act Unit) (force : Bool) (host : Host) {name : String}
    {t : Task} (hget : r.get? name = some t) {levels levels' : Nat} (hle : maxLevels r ≤ levels)
    (hle' : maxLevels r ≤ levels') :
    taskFrom h s r bottom levels force t ⟨.initial, host⟩ =
        taskFrom h s r bottom' levels' force t ⟨.initial, host⟩ ∧
      ∀ f, (taskFrom h s r bottom levels force t ⟨.initial, host⟩).1 = .error f →
        ∀ n, f.rootCause = .recursive n → r.InCycle t n := by
  have hbusy : Busy Progress.initial [] := fun n => ⟨nofun, nofun⟩
  have hcalled : r.Called t [] t := rfl
  have h := coincide_taskFrom (h := h) (s := s) (Registry.mem_held_of_get? hget) bottom bottom' force hcalled
    List.nodup_nil (Nat.le_trans hle (Nat.le_add_left ..)) (Nat.le_trans hle' (Nat.le_add_left ..))
    ⟨.initial, host⟩ hbusy
  refine ⟨h.1, fun f hf n hn => ?_⟩
  have hfault := h.2
  rw [hf] at hfault
  exact hfault n hn

end Taskwork.Execution
