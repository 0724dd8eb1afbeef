/-
Runs and dependencies that name no task of the registry. A run fails for want of a task only where a
task in progress has such a dependency, and every task in progress is held by the registry: so a search
that looks at all held tasks foresees the failure. But what a run looks up first is whether a task of
this name is done. A task that is only among the commands of others has a name as well, and once it has
ended, a dependency on this name passes.
-/
import Taskwork.Proofs.Execution.Cycles
import Taskwork.Proofs.Execution.Trace
import Taskwork.Proofs.Task.Unknown

namespace Taskwork.Execution

variable {h : Shell.Handlers} {s : Settings} {r : Registry} {root : Task}

/-! ## Tasks on a path -/

/-- The run of the task is begun. -/
def Begins (trace : List (Deed × Point)) (t : Task) : Prop := ∃ pt, (Deed.start t, pt) ∈ trace

/-- The run of the task comes to its end. -/
def Ends (trace : List (Deed × Point)) (t : Task) : Prop := ∃ outcome pt, (Deed.finish t outcome, pt) ∈ trace

/-- Each of the tasks in progress needs the one called by it, and the outermost is `root`. -/
def Point.Chained (r : Registry) (root : Task) (pt : Point) : Prop :=
  ∀ t callers, pt.calls = t :: callers → r.Called root callers t

theorem Point.Chained.step {p q : Point} {d : Deed} (hp : p.Chained r root)
    (hstep : Step h s r root p d q) : q.Chained r root := by
  cases hstep with
  | start hcalled =>
    rintro _ _ ⟨⟩
    exact hcalled
  | finish =>
    rintro u callers rfl
    exact (hp _ _ rfl).2
  | _ => exact hp

/-- The tasks in progress are held by the registry. -/
theorem Point.Chained.mem_held {p : Point} (hroot : root ∈ r.held) (hp : p.Chained r root) {t : Task}
    {callers : List Task} (hcalls : p.calls = t :: callers) : t ∈ r.held :=
  (hp t callers hcalls).mem_held hroot t List.mem_cons_self

namespace Path

variable {p q : Point} {es : List (Deed × Point)}

theorem chained (hpath : Path h s r root p es q) (hp : p.calls = []) : q.Chained r root := by
  refine (hpath.invariant (fun _ _ _ => Point.Chained.step) fun t callers hcalls => ?_).1
  rw [hp] at hcalls
  cases hcalls

theorem mem_held_of_begins (hpath : Path h s r root p es q) (hroot : root ∈ r.held) {t : Task}
    (ht : Begins es t) : t ∈ r.held := by
  obtain ⟨pt, hmem⟩ := ht
  obtain ⟨p', hstep⟩ := hpath.exists_step hmem
  cases hstep with
  | start hcalled => exact hcalled.mem_held hroot t List.mem_cons_self

theorem mem_held_of_ends (hpath : Path h s r root p es q) (hp : p.calls = []) (hroot : root ∈ r.held)
    {t : Task} (ht : Ends es t) : t ∈ r.held := by
  obtain ⟨outcome, pt, hmem⟩ := ht
  obtain ⟨before, after, rfl⟩ := List.append_of_mem hmem
  obtain ⟨p', hbefore, hstep, -⟩ := hpath.split
  have hchained := hbefore.chained hp
  cases hstep with
  | finish => exact hchained.mem_held hroot rfl

/-- Of a task in progress the run was begun. -/
theorem begins_of_mem_calls (hpath : Path h s r root p es q) {t : Task} (ht : t ∈ q.calls) :
    t ∈ p.calls ∨ Begins es t := by
  induction hpath with
  | nil => exact .inl ht
  | @cons p m q d es hstep _ ih =>
    rcases ih ht with hm | ⟨pt, hmem⟩
    · -- in progress after the first step: it was before, or this step begins it
      cases hstep with
      | start =>
        rcases List.mem_cons.1 hm with rfl | hm
        · exact .inr ⟨_, List.mem_cons_self⟩
        · exact .inl hm
      | finish => exact .inl (List.mem_cons_of_mem _ hm)
      | _ => exact .inl hm
    · exact .inr ⟨pt, List.mem_cons_of_mem _ hmem⟩

/-- What is done without having been is the name of a task that has come to its end. -/
theorem ends_of_done (hpath : Path h s r root p es q) {n : String}
    (hq : q.world.progress.mark? n = some .done) :
    p.world.progress.mark? n = some .done ∨ ∃ t, Ends es t ∧ t.name = n := by
  induction hpath with
  | nil => exact .inl hq
  | @cons p m q d es hstep _ ih =>
    rcases ih hq with hm | ⟨t, ⟨outcome, pt, hmem⟩, ht⟩
    · -- done after the first step: only the end of a task makes a name done
      cases hstep with
      | start =>
        replace hm := (Progress.mark?_start ..).symm.trans hm
        split at hm
        · cases hm
        · exact .inl hm
      | @finish _ w t outcome =>
        replace hm := (Progress.mark?_finish ..).symm.trans hm
        split at hm
        · rename_i hn
          exact .inr ⟨t, ⟨outcome, _, List.mem_cons_self⟩, hn.symm⟩
        · exact .inl hm
      | _ => exact .inl hm
    · exact .inr ⟨t, ⟨outcome, pt, List.mem_cons_of_mem _ hmem⟩, ht⟩

/-- The name of a task that has come to its end is done from then on. -/
theorem done_of_ends (hpath : Path h s r root p es q) {t : Task} (ht : Ends es t) :
    q.world.progress.mark? t.name = some .done := by
  obtain ⟨outcome, pt, hmem⟩ := ht
  obtain ⟨before, after, rfl⟩ := List.append_of_mem hmem
  obtain ⟨p', -, hstep, hafter⟩ := hpath.split
  refine hafter.done ?_
  cases hstep with
  | finish => exact (Progress.mark?_finish ..).trans (if_pos rfl)

/-- Before a task is ready, held tasks of the names of its dependencies have come to their end. -/
theorem ends_before_ready {host : Host} {before after : List (Deed × Point)} {t : Task} {pt : Point}
    (hpath : Path h s r root ⟨[], ⟨.initial, host⟩⟩ (before ++ (.ready t, pt) :: after) q)
    (hroot : root ∈ r.held) : ∀ d ∈ t.deps, ∃ u ∈ r.held, Ends before u ∧ u.name = d := by
  intro d hd
  obtain ⟨p', hbefore, hstep, -⟩ := hpath.split
  cases hstep with
  | ready hdone =>
    obtain ⟨u, hu, hname⟩ := (hbefore.ends_of_done (hdone d hd)).resolve_left nofun
    exact ⟨u, hbefore.mem_held_of_ends rfl hroot hu, hu, hname⟩

end Path

/-! ## Runs -/

/-- When a run fails for want of a task, one that it has begun depends on this task, which is not
registered, and of whose name none has come to its end. -/
theorem notFound_run {name : String} (hget : r.get? name = some root) {host : Host} {f : Fault} {d : String}
    (hf : (run h s r name host).2 = .error f) (hd : f.rootCause = .notFound d) :
    r.get? d = none ∧ (∃ t ∈ r.held, d ∈ t.deps ∧ Begins (Traced.run h s r name host).2 t) ∧
      ∀ u, Ends (Traced.run h s r name host).2 u → u.name ≠ d := by
  obtain ⟨q, hpath, -, -, hstuck⟩ := path_run (h := h) (s := s) hget host
  rw [hf] at hstuck
  obtain ⟨hunknown, t, callers, hcalls, hdep, hnot⟩ := hstuck d hd
  have ht : t ∈ q.calls := hcalls ▸ List.mem_cons_self
  refine ⟨hunknown, ⟨t, ?_, hdep, (hpath.begins_of_mem_calls ht).resolve_left nofun⟩, ?_⟩
  · exact (hpath.chained rfl).mem_held (Registry.mem_held_of_get? hget) hcalls
  · rintro u hu rfl
    exact hnot (hpath.done_of_ends hu)

/-- A task that is begun in a run that succeeds gets ready, after tasks of the names of its dependencies
have come to their end; all of these are held by the registry. -/
theorem ready_of_begins {name : String} {host : Host} {report : Report}
    (hok : (run h s r name host).2 = .ok report) {t : Task} (ht : Begins (Traced.run h s r name host).2 t) :
    t ∈ r.held ∧ ∃ before pt after, (Traced.run h s r name host).2 = before ++ (.ready t, pt) :: after ∧
      ∀ d ∈ t.deps, ∃ u ∈ r.held, Ends before u ∧ u.name = d := by
  cases hget : r.get? name with
  | none =>
    rw [run_of_get?_none hget] at hok
    cases hok
  | some root =>
    have hroot : root ∈ r.held := Registry.mem_held_of_get? hget
    obtain ⟨q, hpath, -, -, hend⟩ := path_run (h := h) (s := s) hget host
    rw [hok] at hend
    obtain ⟨pt, hstart⟩ := ht
    obtain ⟨pt', hmem⟩ := hend.1.prepared t pt hstart
    obtain ⟨before, after, htrace⟩ := List.append_of_mem hmem
    refine ⟨hpath.mem_held_of_begins hroot ⟨pt, hstart⟩, before, pt', after, htrace, ?_⟩
    rw [htrace] at hpath
    exact hpath.ends_before_ready hroot

/-- **The search for unknown dependencies covers the runs.** Let names tell the held tasks apart. If a
run of a registered task fails for want of another one, this is found as a dependency of a held task; so
if none is found, no run of a registered task fails in this way. -/
theorem unknownDependencies_cover_runs (r : Registry) (hid : r.NamesDistinguish) :
    (r.unknownDependencies = [] → ∀ (h : Shell.Handlers) (s : Settings) (name : String) (host : Host),
      r.contains name = true → ∀ f, (run h s r name host).2 = .error f → ∀ d, f.rootCause ≠ .notFound d) ∧
    ∀ (h : Shell.Handlers) (s : Settings) (name : String) (host : Host), r.contains name = true →
      ∀ f d, (run h s r name host).2 = .error f → f.rootCause = .notFound d →
        ∃ t ∈ r.held, d ∈ t.deps ∧ (t.name, d) ∈ r.unknownDependencies := by
  have hfound (h : Shell.Handlers) (s : Settings) (name : String) (host : Host)
      (hname : r.contains name = true) (f : Fault) (d : String) (hf : (run h s r name host).2 = .error f)
      (hd : f.rootCause = .notFound d) : ∃ t ∈ r.held, d ∈ t.deps ∧ (t.name, d) ∈ r.unknownDependencies := by
    obtain ⟨root, hget⟩ := Option.isSome_iff_exists.1 ((r.isSome_get? name).trans hname)
    obtain ⟨hunknown, ⟨t, ht, hdep, -⟩, -⟩ := notFound_run hget hf hd
    exact ⟨t, ht, hdep, Registry.mem_unknownDependencies hid ht hdep hunknown⟩
  refine ⟨fun hnone h s name host hname f hf d hd => ?_, hfound⟩
  obtain ⟨t, -, -, hmem⟩ := hfound h s name host hname f d hf hd
  rw [hnone] at hmem
  cases hmem

/-- `t` has `s` among its commands, which depends on a task that is nowhere. -/
def haunted : Registry := ⟨[sampleTask "t" [] [sampleTask "s" ["ghost"] []]], []⟩

/-- The run of `t` fails in `s`, and the dependency is found. -/
theorem haunted_covered :
    haunted.NamesDistinguish ∧ haunted.contains "t" = true ∧
    (run ⟨Program.Sample.exec, Shell.Handlers.openDirect⟩ default haunted "t" default).2 =
      .error (.notFound "ghost") ∧
    ∃ t ∈ haunted.held, "ghost" ∈ t.deps ∧ (t.name, "ghost") ∈ haunted.unknownDependencies := by
  have hid : haunted.NamesDistinguish := List.inj_on_of_nodup_map (by decide)
  have hrun : (run ⟨Program.Sample.exec, Shell.Handlers.openDirect⟩ default haunted "t" default).2 =
      .error (.notFound "ghost") := by decide +kernel
  exact ⟨hid, rfl, hrun, (unknownDependencies_cover_runs haunted hid).2 _ _ _ _ rfl _ _ hrun rfl⟩

/-- **An unknown dependency is fatal unless a task of its name has ended.** If a run succeeds that has
begun a task with a dependency that is not registered, a held task of this name had come to its end
before the task was ready; it is one of those that are only in others. And if it fails for want of a
registered task, this is a dependency of a task that it has begun, and no task of this name has come to
its end. So where no held task bears the name of an unknown dependency, a run that begins a task with
such a dependency does not succeed. -/
theorem unknown_dependency_fatal_unless_ended (h : Shell.Handlers) (s : Settings) (r : Registry)
    (name : String) (host : Host) :
    ∃ trace, Traced.run h s r name host = (run h s r name host, trace) ∧
      (∀ report, (run h s r name host).2 = .ok report →
        ∀ t, Begins trace t → ∀ d ∈ t.deps, r.get? d = none →
          ∃ before pt after, trace = before ++ (.ready t, pt) :: after ∧
            ∃ u ∈ r.held, Ends before u ∧ u.name = d) ∧
      (r.contains name = true → ∀ f d, (run h s r name host).2 = .error f → f.rootCause = .notFound d →
        r.get? d = none ∧ (∃ t ∈ r.held, d ∈ t.deps ∧ Begins trace t) ∧ ∀ u, Ends trace u → u.name ≠ d) ∧
      ((∀ t ∈ r.held, ∀ d ∈ t.deps, r.get? d = none → ∀ u ∈ r.held, u.name ≠ d) →
        ∀ t, Begins trace t → ∀ d ∈ t.deps, r.get? d = none → ∀ report, (run h s r name host).2 ≠ .ok report) := by
  refine ⟨_, Traced.run_eq h s r name host, ?_, ?_, ?_⟩
  · intro report hok t ht d hd _
    obtain ⟨-, before, pt, after, htrace, hends⟩ := ready_of_begins hok ht
    exact ⟨before, pt, after, htrace, hends d hd⟩
  · intro hname f d hf hd
    obtain ⟨root, hget⟩ := Option.isSome_iff_exists.1 ((r.isSome_get? name).trans hname)
    exact notFound_run hget hf hd
  · intro hnone t ht d hd hunknown report hok
    obtain ⟨hheld, before, -, -, -, hends⟩ := ready_of_begins hok ht
    obtain ⟨u, hu, -, hname⟩ := hends d hd
    exact hnone t hheld d hd hunknown u hu hname

/-- `all` has `x` and `y` among its commands; `y` depends on `x`, which is not registered. -/
def siblings : Registry := ⟨[sampleTask "all" [] [sampleTask "x" [] [], sampleTask "y" ["x"] []]], []⟩

/-- The same with `y` before `x`. -/
def swapped : Registry := ⟨[sampleTask "all" [] [sampleTask "y" ["x"] [], sampleTask "x" [] []]], []⟩

/-- Whether an unknown dependency is fatal depends on the order of the commands: after `x`, `y` is begun
and the run succeeds; before `x` it fails for want of it. -/
theorem siblings_succeed :
    (∃ trace t report,
      Traced.run ⟨Program.Sample.exec, Shell.Handlers.openDirect⟩ default siblings "all" default =
        (run ⟨Program.Sample.exec, Shell.Handlers.openDirect⟩ default siblings "all" default, trace) ∧
      Begins trace t ∧ "x" ∈ t.deps ∧ siblings.get? "x" = none ∧
      (run ⟨Program.Sample.exec, Shell.Handlers.openDirect⟩ default siblings "all" default).2 = .ok report) ∧
    swapped.get? "x" = none ∧
    (run ⟨Program.Sample.exec, Shell.Handlers.openDirect⟩ default swapped "all" default).2 =
      .error (.notFound "x") := by
  refine ⟨?_, rfl, by decide +kernel⟩
  have hbegins : ((Traced.run ⟨Program.Sample.exec, Shell.Handlers.openDirect⟩ default siblings "all"
      default).2.any fun e => e.1.started?.any (·.deps.contains "x")) = true := by decide +kernel
  obtain ⟨⟨d, pt⟩, hmem, hd⟩ := List.any_eq_true.1 hbegins
  cases d with
  | start t =>
    refine ⟨_, t, ⟨[("x", .executed), ("y", .executed), ("all", .executed)], 0⟩,
      Traced.run_eq _ _ siblings "all" default, ⟨pt, hmem⟩, List.contains_iff_mem.1 hd, rfl, ?_⟩
    decide +kernel
  | _ => cases hd

end Taskwork.Execution
