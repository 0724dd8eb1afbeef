/-
Runs that only show what they would do. A dry run executes no statement: it does the same whatever runs
its programs and opens its files, and all it leaves behind are messages. Its outcomes are those of tasks
that were skipped, up to date, or only shown.
-/
import Taskwork.Program.Sample
import Taskwork.Proofs.Execution.Trace

namespace Taskwork.Execution

variable {h g : Shell.Handlers} {s : Settings} {r : Registry}

/-! ## Whatever the handlers -/

/-- Statements are only shown. -/
theorem statements_of_dryRun (hdry : s.dryRun = true) (t : Task) :
    ∀ (script : Shell.Script) (state : Shell.State),
      statements h s t script state = statements g s t script state
  | [], _ => rfl
  | statement :: rest, state => by
    unfold statements
    rw [if_pos hdry, if_pos hdry, statements_of_dryRun hdry t rest state]

theorem commands_of_dryRun (hdry : s.dryRun = true) (run : Task → Act Unit) (t : Task) :
    ∀ (index : Nat) (cmds : List TaskCommand) (state : Shell.State),
      commands h s run t index cmds state = commands g s run t index cmds state
  | _, [], _ => rfl
  | index, .script source :: rest, state => by
    unfold commands
    cases Shell.Script.ofString source with
    | error e => rfl
    | ok script =>
      dsimp only
      rw [statements_of_dryRun (h := h) (g := g) hdry t script state]
      refine congrArg _ (funext fun state => ?_)
      rw [commands_of_dryRun hdry run t (index + 1) rest state]
  | index, .task sub :: rest, state => by
    unfold commands
    rw [commands_of_dryRun hdry run t (index + 1) rest state]

theorem taskWith_of_dryRun (hdry : s.dryRun = true) (run : Bool → Task → Act Unit) (force : Bool) (t : Task) :
    taskWith h s r run force t = taskWith g s r run force t := by
  have hbody : body h s r (run force) t = body g s r (run force) t := by
    unfold body
    refine congrArg _ (funext fun w => ?_)
    rw [commands_of_dryRun (h := h) (g := g) hdry]
  unfold taskWith
  rw [hbody]

theorem taskAt_of_dryRun (hdry : s.dryRun = true) (level : Nat) : taskAt h s r level = taskAt g s r level := by
  induction level with
  | zero =>
    funext force t
    unfold taskAt
    rfl
  | succ level ih =>
    funext force t
    unfold taskAt
    dsimp only
    rw [ih, taskWith_of_dryRun (h := h) (g := g) hdry]

/-! ## At every point -/

/-- Since the run began on `host`, only messages have been written, and nothing has been executed. -/
structure Point.Idle (host : Host) (pt : Point) : Prop where
  host : ∃ messages, pt.world.host = host.said messages
  statements : pt.world.progress.report.statements = 0
  outcomes : ∀ row ∈ pt.world.progress.report.outcomes, row.2 ≠ .executed

theorem Point.Idle.initial (host : Host) : Point.Idle host ⟨[], ⟨.initial, host⟩⟩ where
  host := ⟨[], host.said_nil.symm⟩
  statements := rfl
  outcomes := nofun

theorem Point.Idle.step {host : Host} {root : Task} {p q : Point} {d : Deed} (hdry : s.dryRun = true)
    (hp : p.Idle host) (hstep : Step h s r root p d q) : q.Idle host := by
  have hnot : s.dryRun ≠ false := by rw [hdry]; nofun
  cases hstep with
  | start => exact ⟨hp.host, hp.statements, hp.outcomes⟩
  | pass => exact hp
  | ready => exact hp
  | tell more =>
    obtain ⟨messages, hhost⟩ := hp.host
    exact ⟨⟨messages ++ more, (congrArg (·.said more) hhost).trans (host.said_said messages more)⟩,
      hp.statements, hp.outcomes⟩
  | execute hrun => exact absurd hrun hnot
  | count hrun => exact absurd hrun hnot
  | finish hout =>
    refine ⟨hp.host, hp.statements, fun row hrow => ?_⟩
    rcases List.mem_append.1 hrow with hrow | hrow
    · exact hp.outcomes row hrow
    · rw [List.mem_singleton.1 hrow]
      exact fun hexecuted => hnot (hout hexecuted)

/-! ## Runs -/

/-- **A dry run has no effects.** It is the same run whatever executes its programs and opens its files,
and executes no statement. At each of its points, and where it ends, well or not, the host is as it was but
for messages: its files, its output and the programs it was asked for among the rest; and no statement has
been counted. If it ends well its outcomes are of tasks that were skipped, up to date, or only shown. -/
theorem dryRun_has_no_effects (h : Shell.Handlers) (s : Settings) (hdry : s.dryRun = true) (r : Registry)
    (name : String) (host : Host) :
    (∀ h' : Shell.Handlers, run h' s r name host = run h s r name host) ∧
    (∃ messages, (run h s r name host).1 = host.said messages) ∧
    (∃ trace, Traced.run h s r name host = (run h s r name host, trace) ∧ ∀ e ∈ trace, e.1 ≠ .execute ∧
      (∃ messages, e.2.world.host = host.said messages) ∧ e.2.world.progress.report.statements = 0) ∧
    ∀ report, (run h s r name host).2 = .ok report → report.statements = 0 ∧
      ∀ row ∈ report.outcomes, row.2 = .skipped ∨ row.2 = .upToDate ∨ row.2 = .dryRun := by
  refine ⟨fun h' => ?_, ?_⟩
  · unfold run
    rw [taskAt_of_dryRun (h := h'.withTools) (g := h.withTools) hdry]
  cases hget : r.get? name with
  | none =>
    have hrun : run h s r name host = (host, .error (.notFound name)) := run_of_get?_none hget host
    rw [Traced.run_of_get?_none hget, hrun]
    exact ⟨⟨[], host.said_nil.symm⟩, ⟨[], rfl, nofun⟩, nofun⟩
  | some t =>
    obtain ⟨q, hpath, -, hhost, hend⟩ := path_run (h := h) (s := s) hget host
    obtain ⟨hidle, hall⟩ := hpath.invariant (fun _ _ _ => Point.Idle.step hdry) (.initial host)
    refine ⟨hhost ▸ hidle.host, ⟨_, Traced.run_eq h s r name host, ?_⟩, ?_⟩
    · rintro ⟨d, pt⟩ he
      refine ⟨?_, (hall _ he).host, (hall _ he).statements⟩
      rintro rfl
      obtain ⟨p, hstep⟩ := hpath.exists_step he
      cases hstep with
      | execute hrun => exact absurd hrun (by rw [hdry]; nofun)
    · intro report hok
      rw [hok] at hend
      obtain ⟨-, rfl⟩ := hend
      refine ⟨hidle.statements, fun row hrow => ?_⟩
      have hne := hidle.outcomes row hrow
      cases hout : row.2 with
      | executed => exact absurd hout hne
      | skipped => exact .inl rfl
      | upToDate => exact .inr (.inl rfl)
      | dryRun => exact .inr (.inr rfl)

/-- A task with a dependency and a task among its commands, all of which would write a file. -/
def writers : Registry :=
  let writer : String → Task := fun name => { Task.empty name "/" with cmds := [.script "echo x > x.txt"] }
  ⟨[writer "a",
    { Task.empty "t" "/" with
      deps := ["a"], cmds := [.task (writer "b"), .script "exit 3", .script "echo y | cat > y.txt"] }], []⟩

/-- All of them are only shown, and what would come after the `exit` as well. -/
theorem writers_shown :
    (⟨true, false, 0⟩ : Settings).dryRun = true ∧
    (∃ messages, (run ⟨Program.Sample.exec, Shell.Handlers.openDirect⟩ ⟨true, false, 0⟩ writers "t" default).1 =
      (default : Host).said messages) ∧
    (run ⟨Program.Sample.exec, Shell.Handlers.openDirect⟩ ⟨true, false, 0⟩ writers "t" default).2 =
      .ok ⟨[("a", .dryRun), ("b", .dryRun), ("t", .dryRun)], 0⟩ := by
  refine ⟨rfl, ?_, by decide +kernel⟩
  exact (dryRun_has_no_effects ⟨Program.Sample.exec, Shell.Handlers.openDirect⟩ ⟨true, false, 0⟩ rfl writers
    "t" default).2.1

end Taskwork.Execution
