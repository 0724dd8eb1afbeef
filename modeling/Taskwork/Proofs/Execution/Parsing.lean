/-
Scripts that parse. A run fails for a script that does not parse only when it comes to this script, among
the commands of a task that is held by the registry or asked for; and those of declared tasks were
parsed when they were declared. So no run of what a recipe declared fails so, be its registry the one the
recipe gave or one that was read from a cache.
-/
import Mathlib
import Taskwork.Program.Sample
import Taskwork.Proofs.Cache.Store
import Taskwork.Proofs.Execution.Failures
import Taskwork.Proofs.Recipe.Evaluation

namespace Taskwork.Execution

/-- The text of a command is no script, under whatever name it was parsed. -/
def Fault.OfSyntax (f : Fault) : Prop := ∃ task name e, f.rootCause = .command task (.script name e)

/-- A fault of files is not one of syntax. -/
theorem Fault.OfFiles.not_ofSyntax {f : Fault} (hf : f.OfFiles) : ¬ f.OfSyntax := by
  rintro ⟨task, name, e, h⟩
  rw [hf.rootCause] at h
  rw [h] at hf
  exact hf

/-- Where the registry holds declared tasks alone, a declared task does not fail so: its own scripts parse,
and what it needs is declared. -/
theorem Fails.not_ofSyntax {r : Registry} (hr : ∀ t ∈ r.held, Recipe.Declared t) {t : Task} {f : Fault}
    (hf : Fails r t f) (ht : Recipe.Declared t) : ¬ f.OfSyntax := by
  induction hf with
  | recursive | unknown | stopped => rintro ⟨_, _, _, ⟨⟩⟩
  | files hf => exact hf.1.not_ofSyntax
  | script hmem hscript =>
    obtain ⟨script, hparses⟩ := ht.parses _ hmem
    rw [hparses] at hscript
    cases hscript
  | dependency _ hget _ ih => exact ih (hr _ (Registry.mem_held_of_get? hget))
  | @command t u _ hmem _ ih => exact ih (ht.nested u (Task.subTask_mem_nested hmem t t.self_mem_nested))

/-! ## Runs -/

theorem not_ofSyntax_of_run {h : Shell.Handlers} {s : Settings} {r : Registry}
    (hr : ∀ t ∈ r.held, Recipe.Declared t) {name : String} {host : Host} {f : Fault}
    (hf : (run h s r name host).2 = .error f) : ¬ f.OfSyntax := by
  have hfails := fails_run hf
  cases hget : r.get? name with
  | none =>
    rw [hget] at hfails
    subst hfails
    rintro ⟨_, _, _, ⟨⟩⟩
  | some t =>
    rw [hget] at hfails
    exact hfails.not_ofSyntax hr (hr t (Registry.mem_held_of_get? hget))

/-- **What was checked when it was declared parses when it is run.** Take the registry that the evaluation
of a recipe gave, or that was read from a cache in which it was kept. The scripts of its tasks, of any others
that calls of `task` gave and of the tasks nested in them parse; and be such a task run by itself or the
registry asked for one, with whatever settings and by whatever host, it does not fail because the text of a
command is no script. -/
theorem declared_scripts_parse {h : Shell.Handlers} {site : Recipe.Site} {given : Table} {optionsOnly : Bool}
    {text : String} {host host' : Host} {e : Recipe.Evaluation}
    (heval : Recipe.evaluateText h site given optionsOnly text host = (host', .ok e)) {r : Registry}
    (hr : r = e.registry ∨ ∃ options options', options.Ordered ∧
      Cache.Countable (Cache.encode options e.registry).length ∧
      Cache.decode (Cache.encode options e.registry) = .ok (options', r)) :
    (∀ t, t ∈ r.tasks ∨ Recipe.Declared t → (∀ u ∈ t.nested, u.Parses) ∧
      ∀ h s level force w f, (taskAt h s r level force t w).1 = .error f → ¬ f.OfSyntax) ∧
    ∀ h s name host f, (run h s r name host).2 = .error f → ¬ f.OfSyntax := by
  have hbuilt := Recipe.built_of_evaluateText heval
  obtain rfl : r = e.registry := by
    rcases hr with hr | ⟨options, options', ho, hn, hdecode⟩
    · exact hr
    · have hkept := hbuilt.decode_encode ho hn []
      rw [List.append_nil, hdecode] at hkept
      cases hkept
      rfl
  refine ⟨fun t ht => ?_, fun h s name host f hf => not_ofSyntax_of_run hbuilt.held hf⟩
  have ht : Recipe.Declared t := ht.elim (hbuilt.tasks t) id
  refine ⟨fun u hu => (ht.nested u hu).parses, fun h s level force w f hf => ?_⟩
  exact (throws_taskAt level force t w f hf).not_ofSyntax hbuilt.held ht

/-- A recipe of a task with another one among its commands, one of which is a list of words. -/
def copyingText : String :=
  "fn configure(o) \x7b task(#\x7b short: \"a\", cmds: [task(#\x7b cmds: [[\"cp\", \"a b\"]] \x7d), \"ls\"] \x7d) \x7d"

def copyingProgram : Recipe.Program :=
  ⟨[⟨"configure", ["o"],
    [.expr (.call "task" [.map [("short", .text "a"), ("cmds", .array [
      .call "task" [.map [("cmds", .array [.array [.text "cp", .text "a b"]])]] ⟨1, 46⟩, .text "ls"])]] ⟨1, 19⟩)]⟩], []⟩

set_option maxRecDepth 4000 in
theorem ofText_copyingText : Recipe.Program.ofText copyingText = .ok copyingProgram := by cbv

def copyingHandlers : Shell.Handlers := ⟨Program.Sample.exec, Shell.Handlers.openDirect⟩

/-- Its registry runs as it was checked after it was in a cache. -/
theorem copying_scripts_parse : ∃ host' e,
    Recipe.evaluateText copyingHandlers ⟨"/p/tasks.rhai", "/p"⟩ [] false copyingText default = (host', .ok e) ∧
    Cache.decode (Cache.encode [("mode", "fast")] e.registry) = .ok ([("mode", "fast")], e.registry) ∧
    (∃ t ∈ e.registry.tasks, t.name = "a" ∧ ∀ u ∈ t.nested, u.Parses) ∧
    ∀ h s name host f, (run h s e.registry name host).2 = .error f → ¬ f.OfSyntax := by
  have hcheck : (match
        (Recipe.evaluateText copyingHandlers ⟨"/p/tasks.rhai", "/p"⟩ [] false copyingText default).2 with
      | .ok e => decide (e.registry.names = ["a"] ∧
        (Cache.encode [("mode", "fast")] e.registry).length < Nat.pow 256 8)
      | .error _ => false) = true := by
    unfold Recipe.evaluateText
    rw [ofText_copyingText]
    decide +kernel
  rcases heval : Recipe.evaluateText copyingHandlers ⟨"/p/tasks.rhai", "/p"⟩ [] false copyingText default with
    ⟨host', f | e⟩ <;> rw [heval] at hcheck
  · cases hcheck
  obtain ⟨hnames, hn⟩ := of_decide_eq_true hcheck
  have ho : Table.Ordered [("mode", "fast")] := by simp [Table.Ordered]
  have hdecode := (Recipe.built_of_evaluateText heval).decode_encode ho hn []
  rw [List.append_nil] at hdecode
  obtain ⟨hparses, hrun⟩ := declared_scripts_parse heval (.inr ⟨_, _, ho, hn, hdecode⟩)
  have ha : "a" ∈ e.registry.names := hnames ▸ List.mem_cons_self
  obtain ⟨t, ht, hname⟩ := List.mem_map.1 ha
  exact ⟨host', e, rfl, hdecode, ⟨t, ht, hname, (hparses t (.inl ht)).1⟩, hrun⟩

end Taskwork.Execution
