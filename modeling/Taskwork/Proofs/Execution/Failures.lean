/-
What a run can fail with. A fault arises in a task that is run: there a dependency is not registered, the
files or a command are at fault, or the task is in progress already. From there it goes outward. A task
that has the failed one among its commands passes the fault on as it is, and one that has it as a dependency
wraps it (`Fails`). So the wrappings of a fault, read from the outside, are the dependencies on a path of
the task graph from the task that was asked for to the one where the fault arose.
-/
import Taskwork.Program.Sample
import Taskwork.Proofs.Execution.Cycles

namespace Taskwork

/-! ## Paths of dependencies -/

namespace Registry

variable {r : Registry}

/-- Links lead from one task to another. Each is a dependency, after the task that has it: the task one has
come to, or one nested in it; and the next link goes on from the dependency. Where there are no more links
one comes to the task itself or to one nested in it. -/
inductive Leads (r : Registry) : Task → List (String × String) → Task → Prop where
  | here {t u : Task} (hu : u ∈ t.nested) : Leads r t [] u
  | through {t u v z : Task} {name : String} {links : List (String × String)} (hu : u ∈ t.nested)
    (hdep : name ∈ u.deps) (hget : r.get? name = some v) (h : Leads r v links z) : Leads r t ((u.name, name) :: links) z

/-- What is led to from a task among the commands is led to from the task. -/
theorem Leads.outward {t u z : Task} {links : List (String × String)} (hu : u ∈ t.subTasks) (h : r.Leads u links z) :
    r.Leads t links z := by
  have hnested : u.nested ⊆ t.nested := Task.nested_subset hu
  cases h with
  | here hz => exact .here (hnested hz)
  | through hv hdep hget h => exact .through (hnested hv) hdep hget h

end Registry

/-! ## Failing -/

namespace Execution

/-! ## Faults of a task -/

/-- What running a task can fail with. -/
inductive Fails (r : Registry) : Task → Fault → Prop where
  | recursive {t : Task} : Fails r t (.recursive t.name)
  | unknown {t : Task} {name : String} (hdep : name ∈ t.deps) (hget : r.get? name = none) : Fails r t (.notFound name)
  | files {t : Task} {f : Fault} (hf : f.OfFilesOf t.name) : Fails r t f
  | script {t : Task} {source name : String} {e : Shell.SyntaxError} (hmem : .script source ∈ t.cmds)
    (hscript : Shell.Script.ofString source = .error e) : Fails r t (.command t.name (.script name e))
  | stopped {t : Task} (stop : Shell.Stop) : Fails r t (.command t.name (.stopped stop))
  /-- A dependency fails, and the task says that it does. -/
  | dependency {t u : Task} {name : String} {cause : Fault} (hdep : name ∈ t.deps) (hget : r.get? name = some u)
    (h : Fails r u cause) : Fails r t (.dependency t.name name cause)
  /-- A task among the commands fails. -/
  | command {t u : Task} {f : Fault} (hmem : u ∈ t.subTasks) (h : Fails r u f) : Fails r t f

variable {h : Shell.Handlers} {s : Settings} {r : Registry} {t : Task}

theorem throws_commands {run : Task → Act Unit} : ∀ {cmds : List TaskCommand} {index : Nat} {state : Shell.State},
    cmds ⊆ t.cmds → (∀ u ∈ Task.embedded cmds, Throws (Fails r t) (run u)) →
      Throws (Fails r t) (commands h s run t index cmds state)
  | [], _, _, _, _ => .pure ()
  | .script source :: rest, index, state, hcmds, hrun => by
    have hrest := List.subset_of_cons_subset hcmds
    unfold commands
    rcases hscript : Shell.Script.ofString source with e | script
    · exact .throw (.script (hcmds List.mem_cons_self) hscript)
    · refine Throws.bind ((throws_statements t script state).mono ?_) fun state => ?_
      · rintro _ ⟨stop, rfl⟩
        exact .stopped stop
      · split
        · exact .pure ()
        · exact throws_commands hrest hrun
  | .task u :: rest, index, state, hcmds, hrun =>
    (hrun u List.mem_cons_self).bind fun _ =>
      throws_commands (List.subset_of_cons_subset hcmds) fun v hv => hrun v (List.mem_cons_of_mem _ hv)

theorem throws_dependencies {run : Task → Act Unit} (hrun : ∀ u, r.Needs t u → Throws (Fails r u) (run u)) :
    ∀ {names : List String}, names ⊆ t.deps → Throws (Fails r t) (dependencies r run t names)
  | [], _ => .pure ()
  | name :: rest, hnames => by
    have hdep : name ∈ t.deps := hnames List.mem_cons_self
    have hrest := throws_dependencies hrun (List.subset_of_cons_subset hnames)
    unfold dependencies
    refine (Throws.get.bind fun _ => .pure _).bind fun _ => ?_
    split
    · exact hrest
    · rcases hget : r.get? name with _ | u
      · exact .throw (.unknown hdep hget)
      · have hu : Throws (Fails r u) (run u) := hrun u (.dependency hdep hget)
        exact (hu.adapt fun _ hf => .dependency hdep hget hf).bind fun _ => hrest

/-- Where the tasks it needs fail as they can, so does a task. -/
theorem throws_taskWith {run : Bool → Task → Act Unit} {force : Bool}
    (hrun : ∀ force u, r.Needs t u → Throws (Fails r u) (run force u)) :
    Throws (Fails r t) (taskWith h s r run force t) := by
  have hcommands : ∀ u ∈ t.subTasks, Throws (Fails r t) (run force u) := fun u hu =>
    (hrun force u (.command hu)).mono fun _ hf => .command hu hf
  unfold taskWith
  refine (Throws.modify _).bind fun _ => ?_
  refine (throws_dependencies (hrun false) (List.Subset.refl _)).bind fun _ => Throws.bind ?_ fun outcome => ?_
  · split
    · exact .pure none
    · exact (throws_settled t).mono fun _ hf => .files hf
  · cases outcome with
    | some outcome => exact (Throws.pure outcome).bind fun _ => .modify _
    | none =>
      refine Throws.bind ?_ fun _ => .modify _
      exact Throws.get.bind fun _ => (throws_commands (List.Subset.refl _) hcommands).bind fun _ => .pure _

theorem throws_taskAt : ∀ (level : Nat) (force : Bool) (t : Task), Throws (Fails r t) (taskAt h s r level force t) := by
  intro level
  induction level with
  | zero =>
    intro force t
    unfold taskAt
    refine (Throws.get.bind fun _ => .pure _).bind fun _ => ?_
    split
    · exact .pure ()
    · exact .throw .recursive
    · exact .throw .recursive
  | succ level ih =>
    intro force t
    unfold taskAt
    refine (Throws.get.bind fun _ => .pure _).bind fun _ => ?_
    split
    · exact .pure ()
    · exact .throw .recursive
    · exact throws_taskWith fun force u _ => ih force u

/-- A run fails as the task asked for can, or there is no such task. -/
theorem fails_run {name : String} {host : Host} {f : Fault} (hf : (run h s r name host).2 = .error f) :
    match r.get? name with
    | none => f = .notFound name
    | some t => Fails r t f := by
  unfold run at hf
  rcases hget : r.get? name with _ | t <;> rw [hget] at hf
  · cases hf
    rfl
  · have hthrows := throws_taskAt (h := h.withTools) (s := s) (r := r) (maxLevels r) s.force t ⟨.initial, host⟩
    rcases hrun : taskAt h.withTools s r (maxLevels r) s.force t ⟨.initial, host⟩ with ⟨f' | _, w⟩ <;>
      rw [hrun] at hthrows <;> simp only [hrun] at hf
    · cases hf
      exact hthrows f rfl
    · cases hf

/-! ## Chains of dependencies -/

/-- The dependencies that a fault came through, the outermost first, each after the task that has it. -/
def Fault.links : Fault → List (String × String)
  | .dependency task needed cause => (task, needed) :: cause.links
  | _ => []

/-- A fault that comes through a dependency. -/
def Fault.through (link : String × String) (cause : Fault) : Fault := .dependency link.1 link.2 cause

/-- A fault is its root cause and what that came through. -/
theorem Fault.eq_foldr_through (f : Fault) : f = f.links.foldr Fault.through f.rootCause := by
  induction f with
  | dependency task needed cause ih => exact congrArg (Fault.dependency task needed) ih
  | _ => rfl

theorem Fault.rootCause_ne_dependency (f : Fault) (task needed : String) (cause : Fault) :
    f.rootCause ≠ .dependency task needed cause := by
  induction f with
  | dependency _ _ _ ih => exact ih
  | _ => nofun

/-- The fault is of this task itself, and not of one that it needs. -/
def Fault.ArisesIn (r : Registry) (t : Task) (f : Fault) : Prop :=
  match f with
  | .notFound name => name ∈ t.deps ∧ r.get? name = none
  | .dependency .. => False
  | f => f.about = t.name

theorem Fault.OfFiles.links {f : Fault} (hf : f.OfFiles) : f.links = [] := by
  cases f with
  | dependency => exact hf.elim
  | _ => rfl

theorem Fault.OfFilesOf.arisesIn {f : Fault} (hf : f.OfFilesOf t.name) : f.ArisesIn r t := by
  obtain ⟨hkind, hname⟩ := hf
  cases f with
  | notFound | dependency => exact hkind.elim
  | _ => exact hname

/-- By the way a fault went outward: its links lead from the task that fails to the one it arose in. -/
theorem Fails.leads {f : Fault} (h : Fails r t f) : ∃ u, r.Leads t f.links u ∧ f.rootCause.ArisesIn r u := by
  induction h with
  | recursive => exact ⟨_, .here (Task.self_mem_nested _), rfl⟩
  | unknown hdep hget => exact ⟨_, .here (Task.self_mem_nested _), hdep, hget⟩
  | files hf =>
    rw [hf.1.links, hf.1.rootCause]
    exact ⟨_, .here (Task.self_mem_nested _), hf.arisesIn⟩
  | script | stopped => exact ⟨_, .here (Task.self_mem_nested _), rfl⟩
  | @dependency t u name cause hdep hget _ ih =>
    obtain ⟨z, hz, hroot⟩ := ih
    exact ⟨z, .through t.self_mem_nested hdep hget hz, hroot⟩
  | command hmem _ ih =>
    obtain ⟨z, hz, hroot⟩ := ih
    exact ⟨z, hz.outward hmem, hroot⟩

/-! ## Runs -/

/-- **The chain of a fault is a path of the task graph.** Whatever a run fails with is its root cause,
which came through no dependency, wrapped by dependencies. They lead on from the task asked for: the first
is a dependency of this task or of one nested in it, and each further one of the dependency before it or of a
task nested in that. In the task they lead to, or one nested in it, the root cause arose. -/
theorem chain_is_path (h : Shell.Handlers) (s : Settings) (r : Registry) (name : String) (host : Host) (f : Fault)
    (hf : (run h s r name host).2 = .error f) :
    f = f.links.foldr Fault.through f.rootCause ∧
    (∀ task needed cause, f.rootCause ≠ .dependency task needed cause) ∧
    match r.get? name with
    | none => f = .notFound name
    | some t => ∃ u, r.Leads t f.links u ∧ f.rootCause.ArisesIn r u := by
  refine ⟨f.eq_foldr_through, f.rootCause_ne_dependency, ?_⟩
  have hfails := fails_run hf
  cases hget : r.get? name with
  | none => rwa [hget] at hfails
  | some t =>
    rw [hget] at hfails
    exact hfails.leads

/-- `t` has `s` among its commands, which depends on `b`; and `b` has `c` among its commands, which depends
on `t`. -/
def winding : Registry :=
  ⟨[sampleTask "t" [] [sampleTask "s" ["b"] []], sampleTask "b" [] [sampleTask "c" ["t"] []]], []⟩

/-- Its run fails where `t` is called again, through two dependencies, neither of which is one of `t` or
`b` itself. -/
theorem winding_chain :
    (run ⟨Program.Sample.exec, Shell.Handlers.openDirect⟩ default winding "t" default).2 =
      .error (.dependency "s" "b" (.dependency "c" "t" (.recursive "t"))) ∧
    ∃ t u, winding.get? "t" = some t ∧ winding.Leads t [("s", "b"), ("c", "t")] u ∧ u.name = "t" := by
  have hrun : (run ⟨Program.Sample.exec, Shell.Handlers.openDirect⟩ default winding "t" default).2 =
      .error (.dependency "s" "b" (.dependency "c" "t" (.recursive "t"))) := by decide +kernel
  obtain ⟨-, -, u, hleads, harises⟩ := chain_is_path _ _ _ _ _ _ hrun
  exact ⟨hrun, _, u, rfl, hleads, harises.symm⟩

end Execution
end Taskwork
