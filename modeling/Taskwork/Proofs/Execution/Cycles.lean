/-
Runs and cycles. A run ends however its tasks need each other; it reports a cycle only where there is
one, and it does not succeed past a cycle of dependencies: what is on record is held by the registry,
each task after its dependencies, and in a cycle no task can be the first to end.
-/
import Taskwork.Program.Sample
import Taskwork.Proofs.Execution.Levels

namespace Taskwork.Execution

open Relation

/-! ## What is on record -/

/-- Everything that is written down is about tasks of which `P` is true. -/
def Tells {α : Type} (P : Task → Prop) (x : Recorded α) : Prop :=
  ∀ w es, (∀ e ∈ es, P e.task) → ∀ e ∈ (x (w, es)).2.2, P e.task

namespace Tells

variable {α β : Type} {P : Task → Prop}

theorem silently (act : Act α) : Tells P (Recorded.silently act) := fun _ _ hes => hes

theorem pure (a : α) : Tells P (Pure.pure a : Recorded α) := fun _ _ hes => hes

theorem throw (f : Fault) : Tells P (MonadExcept.throw f : Recorded α) := fun _ _ hes => hes

theorem bind {x : Recorded α} {f : α → Recorded β} (hx : Tells P x) (hf : ∀ a, Tells P (f a)) :
    Tells P (x >>= f) := by
  intro w es hes
  have h := hx w es hes
  rw [Stateful.bind_apply]
  rcases hxw : x (w, es) with ⟨_ | a, w', es'⟩ <;> rw [hxw] at h
  · exact h
  · exact hf a w' es' h

theorem adapt {x : Recorded α} (g : Fault → Fault) (hx : Tells P x) : Tells P (ExceptT.adapt g x) := by
  intro w es hes
  rw [Stateful.adapt_apply]
  exact hx w es hes

theorem note {e : Event} (he : P e.task) : Tells P (Recorded.note e) := by
  intro w es hes e' he'
  rcases List.mem_append.1 he' with he' | he'
  · exact hes e' he'
  · rwa [List.mem_singleton.1 he']

variable {h : Shell.Handlers} {s : Settings} {r : Registry}

theorem dependencies {run : Task → Recorded Unit} {t : Task} :
    ∀ {names : List String}, (∀ name ∈ names, ∀ u, r.get? name = some u → Tells P (run u)) →
      Tells P (Recorded.dependencies r run t names)
  | [], _ => pure ()
  | name :: rest, hrun => by
    have hrest := dependencies (t := t) fun d hd => hrun d (List.mem_cons_of_mem _ hd)
    unfold Recorded.dependencies
    refine bind (silently _) fun p => ?_
    split
    · exact hrest
    · cases hget : r.get? name with
      | none => exact throw _
      | some u => exact bind ((hrun name List.mem_cons_self u hget).adapt _) fun _ => hrest

theorem commands {run : Task → Recorded Unit} {t : Task} :
    ∀ {cmds : List TaskCommand} {index : Nat} {state : Shell.State},
      (∀ u ∈ Task.embedded cmds, Tells P (run u)) → Tells P (Recorded.commands h s run t index cmds state)
  | [], _, _, _ => pure ()
  | .script source :: rest, index, state, hrun => by
    unfold Recorded.commands
    cases Shell.Script.ofString source with
    | error e => exact throw _
    | ok script =>
      refine bind (silently _) fun state => ?_
      split
      · exact pure ()
      · exact commands hrun
  | .task sub :: rest, index, state, hrun =>
    bind (hrun sub List.mem_cons_self) fun _ => commands fun u hu => hrun u (List.mem_cons_of_mem _ hu)

theorem taskWith {run : Bool → Task → Recorded Unit} {force : Bool} {t : Task} (ht : P t)
    (hrun : ∀ force u, r.Needs t u → Tells P (run force u)) : Tells P (Recorded.taskWith h s r run force t) := by
  have hend (outcome : Outcome) : Tells P
      (Recorded.silently (Act.advance (·.finish t.name outcome)) >>= fun _ => Recorded.note (.ended t outcome)) :=
    bind (silently _) fun _ => note ht
  unfold Recorded.taskWith
  refine bind (silently _) fun _ => bind (note ht) fun _ => ?_
  refine bind (dependencies fun d hd u hu => hrun false u (.dependency hd hu)) fun _ => ?_
  refine bind ?_ fun settled => ?_
  · split
    · exact pure none
    · exact silently _
  · cases settled with
    | some outcome => exact bind (pure outcome) hend
    | none =>
      refine bind (bind (note ht) fun _ => bind (silently _) fun w => ?_) hend
      exact bind (commands fun u hu => hrun force u (.command hu)) fun _ => pure _

/-- Only tasks held by the registry are on record. -/
theorem taskAt : ∀ (level : Nat) (force : Bool) {t : Task}, t ∈ r.held →
    Tells (· ∈ r.held) (Recorded.taskAt h s r level force t) := by
  intro level
  induction level with
  | zero =>
    intro force t ht
    unfold Recorded.taskAt
    refine bind (silently _) fun p => ?_
    split
    · exact pure ()
    · exact throw _
    · exact throw _
  | succ level ih =>
    intro force t ht
    unfold Recorded.taskAt
    refine bind (silently _) fun p => ?_
    split
    · exact pure ()
    · exact throw _
    · exact taskWith ht fun force u hu => ih force (hu.mem_held ht)

end Tells

/-! ## Dependencies end first -/

/-- What a run that succeeds has on record: each task once, and the dependencies before it. -/
structure Ordered (es : List Event) : Prop where
  once : (endedNames es).Nodup
  before : ∀ before t outcome after, ended es = before ++ (t, outcome) :: after →
    ∀ d ∈ t.deps, d ∈ before.map (·.1.name)

/-- A dependency ends before the task that has it, if names tell tasks apart. -/
theorem Ordered.lt_of_dependsOn {r : Registry} {es : List Event} (h : Ordered es) (hid : r.NamesIdentify)
    (hheld : ∀ e ∈ es, e.task ∈ r.held) {u v : Task} (hu : r.get? u.name = some u)
    (hended : u.name ∈ endedNames es) (hdep : r.DependsOn u v) :
    r.get? v.name = some v ∧ v.name ∈ endedNames es ∧
      (endedNames es).idxOf v.name < (endedNames es).idxOf u.name := by
  obtain ⟨d, hd, hget⟩ := hdep
  obtain rfl : v.name = d := Registry.name_of_get? hget
  obtain ⟨⟨t, outcome⟩, ht, hname⟩ := List.mem_map.1 hended
  obtain ⟨before, after, hsplit⟩ := List.append_of_mem ht
  have hname : t.name = u.name := hname
  have hmem : v.name ∈ before.map (·.1.name) := by
    refine h.before before t outcome after hsplit v.name ?_
    obtain ⟨e, he, het⟩ := List.mem_filterMap.1 ht
    obtain rfl : t = e.task := by cases e <;> cases het; rfl
    rwa [hid e.task (hheld e he) u (by rw [hname]; exact hu)]
  have hnames : endedNames es = before.map (·.1.name) ++ u.name :: after.map (·.1.name) := by
    rw [endedNames, hsplit, List.map_append, List.map_cons, hname]
  have hnot : u.name ∉ before.map (·.1.name) := by
    have hnodup := h.once
    rw [hnames, List.nodup_append] at hnodup
    exact fun hmem => hnodup.2.2 _ hmem _ List.mem_cons_self rfl
  refine ⟨hget, ?_, ?_⟩
  · rw [hnames]
    exact List.mem_append_left _ hmem
  · rw [hnames, List.idxOf_append_of_mem hmem, List.idxOf_append_of_notMem hnot]
    exact Nat.lt_of_lt_of_le (List.idxOf_lt_length_of_mem hmem) (Nat.le_add_right ..)

/-- No task on the way of dependencies is in a cycle of them. -/
theorem Ordered.acyclic {r : Registry} {es : List Event} (h : Ordered es) (hid : r.NamesIdentify)
    (hheld : ∀ e ∈ es, e.task ∈ r.held) {root : Task} (hroot : r.get? root.name = some root)
    (hended : root.name ∈ endedNames es) {u : Task} (hu : ReflTransGen r.DependsOn root u) :
    ¬ TransGen r.DependsOn u u := by
  have hstep {u v : Task} (hu : r.get? u.name = some u ∧ u.name ∈ endedNames es) (huv : TransGen r.DependsOn u v) :
      (r.get? v.name = some v ∧ v.name ∈ endedNames es) ∧
        (endedNames es).idxOf v.name < (endedNames es).idxOf u.name := by
    induction huv with
    | single hdep =>
      obtain ⟨hget, hmem, hlt⟩ := h.lt_of_dependsOn hid hheld hu.1 hu.2 hdep
      exact ⟨⟨hget, hmem⟩, hlt⟩
    | tail _ hdep ih =>
      obtain ⟨hget, hmem, hlt⟩ := h.lt_of_dependsOn hid hheld ih.1.1 ih.1.2 hdep
      exact ⟨⟨hget, hmem⟩, Nat.lt_trans hlt ih.2⟩
  have hu' : r.get? u.name = some u ∧ u.name ∈ endedNames es := by
    rcases reflTransGen_iff_eq_or_transGen.1 hu with rfl | hu
    · exact ⟨hroot, hended⟩
    · exact (hstep ⟨hroot, hended⟩ hu).1
  exact fun hcycle => Nat.lt_irrefl _ (hstep hu' hcycle).2

/-! ## Runs -/

variable {h : Shell.Handlers} {s : Settings} {r : Registry}

/-- A run that succeeds has the task asked for on record, after all it depends on. -/
theorem ordered_run {name : String} {t : Task} (hget : r.get? name = some t) {host : Host} {report : Report}
    (hok : (run h s r name host).2 = .ok report) :
    ∃ es, Ordered es ∧ (∀ e ∈ es, e.task ∈ r.held) ∧ t.name ∈ endedNames es := by
  obtain ⟨p, hpass, hend⟩ := passage_run (h := h) (s := s) hget host
  rw [← Recorded.fst_run] at hok
  obtain ⟨-, before, outcome, hes⟩ := hend report hok
  refine ⟨(Recorded.run h s r name host).2, ⟨hpass.endedOnce, ?_⟩, ?_, ?_⟩
  · intro before t outcome after hsplit d hd
    exact (hpass.ordered before t outcome after hsplit d hd).resolve_left nofun
  · have hheld := Tells.taskAt (h := h.withTools) (s := s) (maxLevels r) s.force
      (Registry.mem_held_of_get? hget) ⟨.initial, host⟩ [] nofun
    unfold Recorded.run
    rw [hget]
    dsimp only
    rcases hrun : Recorded.taskAt h.withTools s r (maxLevels r) s.force t (⟨.initial, host⟩, []) with
      ⟨_ | _, w, es⟩ <;> rw [hrun] at hheld <;> exact hheld
  · rw [hes, endedNames_append, List.mem_append]
    exact .inr List.mem_cons_self

theorem run_eq_runFrom (name : String) (host : Host) :
    run h s r name host = runFrom h s r (fun _ t => throw (.recursive t.name)) (maxLevels r) name host := by
  cases hget : r.get? name with
  | none => simp only [run, runFrom, hget]
  | some t =>
    rcases hrun : taskFrom h.withTools s r (fun _ t => throw (.recursive t.name)) (maxLevels r) s.force t
      ⟨.initial, host⟩ with ⟨_ | _, w⟩ <;> simp only [run, runFrom, hget, taskAt_eq_taskFrom, hrun]

variable (h s r)

/-- **Runs end, and find cycles exactly.** A run goes no deeper than the registry holds tasks: with any
more levels, and whatever would be done below them, it is the same run. If it fails because a task was
found in progress, the task asked for reaches, by dependencies and commands, a task of that name that
needs one of that name; so where no task needs one of its own name it does not fail for this. And
where names tell tasks apart it does not succeed if the dependencies it starts from lead into a cycle
of dependencies. -/
theorem cycles_are_found (name : String) (host : Host) :
    (∀ bottom levels, maxLevels r ≤ levels → runFrom h s r bottom levels name host = run h s r name host) ∧
    (∀ f n, (run h s r name host).2 = .error f → f.rootCause = .recursive n →
      ∃ t, r.get? name = some t ∧ r.InCycle t n) ∧
    ((∀ t ∈ r.held, ∀ u, TransGen r.Needs t u → t.name ≠ u.name) →
      ∀ f n, (run h s r name host).2 = .error f → f.rootCause ≠ .recursive n) ∧
    (r.NamesIdentify → ∀ t u, r.get? name = some t → ReflTransGen r.DependsOn t u → TransGen r.DependsOn u u →
      ∀ report, (run h s r name host).2 ≠ .ok report) := by
  have hsound (f : Fault) (n : String) (hf : (run h s r name host).2 = .error f)
      (hn : f.rootCause = .recursive n) : ∃ t, r.get? name = some t ∧ r.InCycle t n := by
    rw [run_eq_runFrom, runFrom] at hf
    cases hget : r.get? name with
    | none =>
      rw [hget] at hf
      cases hf
      cases hn
    | some t =>
      have hle := Nat.le_refl (maxLevels r)
      have hsound := (coincide_run (h := h.withTools) (s := s) (fun _ t => throw (.recursive t.name))
        (fun _ _ => pure ()) s.force host hget hle hle).2
      rw [hget] at hf
      dsimp only at hf
      split at hf <;> rename_i heq <;> cases hf
      exact ⟨t, rfl, hsound f (by rw [heq]) n hn⟩
  refine ⟨fun bottom levels hle => ?_, hsound, fun hacyclic f n hf hn => ?_, ?_⟩
  · rw [run_eq_runFrom, runFrom, runFrom]
    cases hget : r.get? name with
    | none => rfl
    | some t =>
      dsimp only
      rw [(coincide_run (h := h.withTools) (s := s) bottom (fun _ t => throw (.recursive t.name)) s.force
        host hget hle (Nat.le_refl _)).1]
  · obtain ⟨root, hget, t, u, hreach, hneeds, ht, hu⟩ := hsound f n hf hn
    exact hacyclic t (Registry.mem_held_of_reaches (Registry.mem_held_of_get? hget) hreach) u hneeds
      (ht.trans hu.symm)
  · intro hid t u hget hreach hcycle report hok
    obtain ⟨es, hordered, hheld, hended⟩ := ordered_run hget hok
    have hroot : r.get? t.name = some t := by rw [Registry.name_of_get? hget, hget]
    exact hordered.acyclic hid hheld hroot hended hreach hcycle

/-- A task with these dependencies and the tasks `cmds` in its place. -/
def sampleTask (name : String) (deps : List String) (cmds : List Task) : Task :=
  { Task.empty name "/" with deps, cmds := cmds.map .task }

/-- `d` depends on `a` and `b`, which both depend on `c`, and has `a` among its commands as well. -/
def diamond : Registry :=
  ⟨[sampleTask "c" [] [], sampleTask "a" ["c"] [], sampleTask "b" ["c"] [],
    sampleTask "d" ["a", "b"] [sampleTask "a" ["c"] []]], []⟩

/-- `b` depends on itself. -/
def selfDependent : Registry := ⟨[sampleTask "b" ["b"] []], []⟩

/-- A diamond is no cycle, and a task that depends on itself does not succeed. -/
theorem diamond_and_loop :
    (∀ f n, (run ⟨Program.Sample.exec, Shell.Handlers.openDirect⟩ default diamond "d" default).2 = .error f →
      f.rootCause ≠ .recursive n) ∧
    ∀ report, (run ⟨Program.Sample.exec, Shell.Handlers.openDirect⟩ default selfDependent "b" default).2 ≠ .ok report := by
  constructor
  · refine (cycles_are_found ⟨Program.Sample.exec, Shell.Handlers.openDirect⟩ default diamond "d" default).2.2.1 ?_
    exact Registry.acyclic_of_rank (fun n => if n = "d" then 2 else if n = "c" then 0 else 1) (by decide)
  · refine (cycles_are_found ⟨Program.Sample.exec, Shell.Handlers.openDirect⟩ default selfDependent "b" default).2.2.2
      ?_ _ _ rfl .refl (.single ⟨"b", List.mem_cons_self, rfl⟩)
    intro t ht u hu
    obtain rfl := List.mem_singleton.1 ht
    cases hu
    rfl

/-- `t` depends on `a`, which has a task of the name `b` among its commands, and on `b`, which is
registered and depends on itself. -/
def maskedLoop : Registry :=
  ⟨[sampleTask "a" [] [sampleTask "b" [] []], sampleTask "b" ["b"] [], sampleTask "t" ["a", "b"] []], []⟩

/-- What is done under the name of a task hides that its dependencies lead into a cycle. -/
theorem maskedLoop_succeeds :
    ∃ t u report, maskedLoop.get? "t" = some t ∧ ReflTransGen maskedLoop.DependsOn t u ∧
      TransGen maskedLoop.DependsOn u u ∧
      (run ⟨Program.Sample.exec, Shell.Handlers.openDirect⟩ default maskedLoop "t" default).2 = .ok report := by
  have hloop : maskedLoop.DependsOn (sampleTask "b" ["b"] []) (sampleTask "b" ["b"] []) :=
    ⟨"b", List.mem_cons_self, rfl⟩
  refine ⟨sampleTask "t" ["a", "b"] [], sampleTask "b" ["b"] [],
    ⟨[("b", .executed), ("a", .executed), ("t", .executed)], 0⟩, rfl, ?_, .single hloop, ?_⟩
  · exact .single ⟨"b", by decide, rfl⟩
  · decide +kernel

end Taskwork.Execution
