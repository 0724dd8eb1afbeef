/-
Tasks that were declared. What a call of `task` gives was checked by it: each script among the commands
parses, and a task among them was given by a call before. So the tasks nested in a declared task are
declared as well (`Declared.nested`), and what is true of every call is true of all of them. A registry
of declared tasks that was kept in a cache is read from it unchanged (`Built.decode_encode`).
-/
import Taskwork.Proofs.Cache.Store
import Taskwork.Proofs.Stateful
import Taskwork.Recipe.TaskKeys

namespace Taskwork

/-- Each of its own scripts is one. -/
def Task.Parses (t : Task) : Prop :=
  ∀ source, .script source ∈ t.cmds → ∃ script, Shell.Script.ofString source = .ok script

theorem Task.exists_of_mem_nestedIn {u : Task} : ∀ {cmds : List TaskCommand}, u ∈ Task.nestedIn cmds →
    ∃ t, .task t ∈ cmds ∧ u ∈ t.nested
  | .script _ :: rest, h => by
    have hrest : u ∈ Task.nestedIn rest := h
    obtain ⟨t, ht, hu⟩ := exists_of_mem_nestedIn hrest
    exact ⟨t, List.mem_cons_of_mem _ ht, hu⟩
  | .task t :: rest, h => by
    rw [nestedIn, List.mem_append] at h
    rcases h with h | h
    · exact ⟨t, List.mem_cons_self, h⟩
    · obtain ⟨t, ht, hu⟩ := exists_of_mem_nestedIn h
      exact ⟨t, List.mem_cons_of_mem _ ht, hu⟩

namespace Recipe

/-! ## Tasks in values -/

/-- The task is somewhere in a value. -/
inductive Value.Holds (t : Task) : Value → Prop
  | self : Holds t (.task t)
  | item {items : List Value} {v : Value} (hv : v ∈ items) (h : Holds t v) : Holds t (.array items)
  | row {rows : List (String × Value)} {key : String} {v : Value} (hrow : (key, v) ∈ rows) (h : Holds t v) :
    Holds t (.map rows)

theorem Value.mem_of_lookup {key : String} {v : Value} : ∀ {rows : List (String × Value)},
    lookup key rows = some v → (key, v) ∈ rows
  | (k, w) :: rest, h => by
    unfold lookup at h
    split at h
    · rename_i hk
      obtain rfl := Option.some.inj h
      exact hk ▸ List.mem_cons_self
    · exact List.mem_cons_of_mem _ (mem_of_lookup h)

/-! ## Commands -/

/-- What was made of some items: a script that parses, or a task that is one of them. -/
theorem commandsFrom_cases {name base : String} {c : TaskCommand} :
    ∀ {items : List Value} {index : Nat} {cmds : List TaskCommand},
      commandsFrom name base index items = .ok cmds → c ∈ cmds →
        (∃ source script, c = .script source ∧ Shell.Script.ofString source = .ok script) ∨
        ∃ t, c = .task t ∧ .task t ∈ items
  | [], _, _, h, hc => by
    cases h
    cases hc
  | v :: rest, index, cmds, h, hc => by
    unfold commandsFrom at h
    rcases hv : commandOf (name ++ ":" ++ toString index) base v with f | first <;> rw [hv] at h
    · cases h
    rcases hrest : commandsFrom name base (index + 1) rest with f | others <;> rw [hrest] at h
    · cases h
    cases h
    rcases List.mem_cons.1 hc with rfl | hc
    · -- texts and lists of words are taken as scripts only once they are checked
      have hchecked {source : String} {name : String} (h : checkedScript name source = .ok c) :
          ∃ source script, c = .script source ∧ Shell.Script.ofString source = .ok script := by
        unfold checkedScript at h
        split at h
        · rename_i script hscript
          cases h
          exact ⟨source, script, rfl, hscript⟩
        · cases h
      unfold commandOf at hv
      split at hv
      · exact .inl (hchecked hv)
      · split at hv
        · exact .inl (hchecked hv)
        · cases hv
      · cases hv
        exact .inr ⟨_, rfl, List.mem_cons_self⟩
      · cases hv
    · rcases commandsFrom_cases hrest hc with h | ⟨t, ht, hmem⟩
      · exact .inl h
      · exact .inr ⟨t, ht, List.mem_cons_of_mem _ hmem⟩

theorem commands_cases {rows : List (String × Value)} {name directory : String} {cmds : List TaskCommand}
    (h : TaskKeys.commands rows name directory = .ok cmds) {c : TaskCommand} (hc : c ∈ cmds) :
    (∃ source script, c = .script source ∧ Shell.Script.ofString source = .ok script) ∨
      ∃ t, c = .task t ∧ (Value.map rows).Holds t := by
  unfold TaskKeys.commands at h
  split at h
  · cases h
    cases hc
  · rename_i items hitems
    unfold commandsOf at h
    rcases hfrom : commandsFrom name directory 0 items with f | cmds' <;> rw [hfrom] at h
    · cases h
    cases h
    rcases commandsFrom_cases hfrom hc with h | ⟨t, ht, hmem⟩
    · exact .inl h
    · exact .inr ⟨t, ht, .row (Value.mem_of_lookup hitems) (.item hmem .self)⟩
  · cases h

/-! ## Declarations -/

theorem ordered_env {rows : List (String × Value)} {env : Table} (h : TaskKeys.env rows = .ok env) :
    env.Ordered := by
  unfold TaskKeys.env at h
  split at h
  · cases h
    exact Table.ordered_nil
  · rename_i inner _
    rcases hrows : TaskKeys.envRows inner with f | row <;> rw [hrows] at h
    · cases h
    · cases h
      exact Table.ordered_ofList row
  · cases h

/-- A described task: where it has its directory, and the parts of it that were checked. -/
theorem Draft.taskOf_cases {d : Draft} {rows : List (String × Value)} {t : Task} (h : d.taskOf rows = .ok t) :
    (∃ fragment, t.base = d.site.resolve [fragment]) ∧ TaskKeys.commands rows t.name t.base = .ok t.cmds ∧
      TaskKeys.env rows = .ok t.env := by
  unfold Draft.taskOf at h
  dsimp only at h
  split at h
  · cases h
  split at h
  · cases h
  obtain ⟨short, -, h⟩ := exists_of_bind_ok h
  obtain ⟨hidden, -, h⟩ := exists_of_bind_ok h
  obtain ⟨base, -, h⟩ := exists_of_bind_ok h
  obtain ⟨description, -, h⟩ := exists_of_bind_ok h
  obtain ⟨deps, -, h⟩ := exists_of_bind_ok h
  obtain ⟨skipIfExists, -, h⟩ := exists_of_bind_ok h
  obtain ⟨inputs, -, h⟩ := exists_of_bind_ok h
  obtain ⟨outputs, -, h⟩ := exists_of_bind_ok h
  obtain ⟨env, henv, h⟩ := exists_of_bind_ok h
  obtain ⟨cmds, hcmds, h⟩ := exists_of_bind_ok h
  cases h
  exact ⟨⟨base, rfl⟩, hcmds, henv⟩

/-- A task that is admitted takes its name, and comes last in the registry if it is visible. -/
theorem Draft.admit?_cases {d d' : Draft} {t : Task} (h : d.admit? t = .ok d') :
    t.checkDeclaration d.taskNames = .ok () ∧
      (t.visible = false ∧ d' = { d with taskNames := d.taskNames ++ [t.name] } ∨
        t.visible = true ∧ t.name ∉ d.registry.names ∧ d' =
          { d with
            taskNames := d.taskNames ++ [t.name]
            registry := { d.registry with tasks := d.registry.tasks ++ [t] } }) := by
  unfold Draft.admit? at h
  obtain ⟨⟨⟩, hcheck, h⟩ := exists_of_bind_ok h
  refine ⟨hcheck, ?_⟩
  dsimp only at h
  split at h
  · rename_i hvisible
    split at h
    · rename_i r hinsert
      cases h
      unfold Registry.insert at hinsert
      split at hinsert
      · cases hinsert
      · rename_i hfree
        cases hinsert
        exact .inr ⟨hvisible, mt Registry.contains_iff.2 hfree, rfl⟩
    · cases h
  · rename_i hhidden
    cases h
    exact .inl ⟨Bool.eq_false_iff.2 hhidden, rfl⟩

theorem Draft.declareTask_cases {d d' : Draft} {rows : List (String × Value)} {t : Task}
    (h : d.declareTask rows = .ok (d', t)) : d.taskOf rows = .ok t ∧ d.admit? t = .ok d' := by
  unfold Draft.declareTask at h
  obtain ⟨u, hu, h⟩ := exists_of_bind_ok h
  obtain ⟨d'', hadmit, h⟩ := exists_of_bind_ok h
  cases h
  rcases ha : d.admit? t with f | admitted <;> rw [ha] at hadmit <;> cases hadmit
  exact ⟨hu, rfl⟩

/-! ## Declared tasks -/

/-- A task that a call of `task` gave, as calls before gave the tasks among what it was called with. -/
inductive Declared : Task → Prop
  | call {d d' : Draft} {rows : List (String × Value)} {t : Task}
    (hrows : ∀ u, (Value.map rows).Holds u → Declared u) (h : d.declareTask rows = .ok (d', t)) : Declared t

namespace Declared

variable {t : Task}

theorem parses (h : Declared t) : t.Parses := by
  obtain ⟨-, hcall⟩ := h
  obtain ⟨-, hcmds, -⟩ := Draft.taskOf_cases (Draft.declareTask_cases hcall).1
  intro source hmem
  rcases commands_cases hcmds hmem with ⟨source', script, hsource, hscript⟩ | ⟨u, hu, -⟩
  · cases hsource
    exact ⟨script, hscript⟩
  · cases hu

theorem env_ordered (h : Declared t) : t.env.Ordered := by
  obtain ⟨-, hcall⟩ := h
  exact ordered_env (Draft.taskOf_cases (Draft.declareTask_cases hcall).1).2.2

/-- The tasks nested in a declared task are declared. -/
theorem nested (h : Declared t) : ∀ u ∈ t.nested, Declared u := by
  induction h with
  | @call d d' rows t hrows hcall ih =>
    obtain ⟨-, hcmds, -⟩ := Draft.taskOf_cases (Draft.declareTask_cases hcall).1
    -- a nested task is the one that was called for, or is nested in one the call was made with
    intro u hu
    rw [Task.nested_eq] at hu
    rcases List.mem_cons.1 hu with rfl | hu
    · exact .call hrows hcall
    · obtain ⟨v, hv, hu⟩ := Task.exists_of_mem_nestedIn hu
      rcases commands_cases hcmds hv with ⟨_, _, hv, -⟩ | ⟨v', hv', hheld⟩
      · cases hv
      · cases hv'
        exact ih v hheld u hu

end Declared

/-! ## Registries -/

/-- The registry of a recipe: its tasks were declared, each name once, and its variables are in order. -/
structure Built (r : Registry) : Prop where
  tasks : ∀ t ∈ r.tasks, Declared t
  names : r.names.Nodup
  env : r.env.Ordered

namespace Built

theorem empty : Built .empty := ⟨nofun, List.nodup_nil, Table.ordered_nil⟩

theorem insert {r : Registry} (h : Built r) {t : Task} (ht : Declared t) (hfree : t.name ∉ r.names) :
    Built { r with tasks := r.tasks ++ [t] } where
  tasks u hu := by
    rcases List.mem_append.1 hu with hu | hu
    · exact h.tasks u hu
    · exact List.mem_singleton.1 hu ▸ ht
  names := by
    have hnames : Registry.names { r with tasks := r.tasks ++ [t] } = r.names ++ [t.name] := by simp [Registry.names]
    rw [hnames, List.nodup_append]
    refine ⟨h.names, by simp, fun a ha b hb => ?_⟩
    rintro rfl
    exact hfree (List.mem_singleton.1 hb ▸ ha)
  env := h.env

theorem setEnv {r : Registry} (h : Built r) {env : Table} (henv : env.Ordered) : Built (r.setEnv env) :=
  ⟨h.tasks, h.names, henv⟩

theorem held {r : Registry} (h : Built r) : ∀ t ∈ r.held, Declared t := by
  intro t ht
  obtain ⟨u, hu, ht⟩ := List.mem_flatMap.1 ht
  exact (h.tasks u hu).nested t ht

theorem registryFits {r : Registry} (h : Built r) {options : Table}
    (hn : Cache.Countable (Cache.encode options r).length) : Cache.RegistryFits r :=
  Cache.registryFits_of_countable ⟨h.env, fun t ht => (h.held t ht).env_ordered⟩ hn

/-- It is read as it was written. -/
theorem decode_encode {r : Registry} (h : Built r) {options : Table} (ho : options.Ordered)
    (hn : Cache.Countable (Cache.encode options r).length) (extra : Bytes) :
    Cache.decode (Cache.encode options r ++ extra) = .ok (options, r) :=
  Cache.decode_encode (Cache.tableFits_of_countable ho hn) (h.registryFits hn) h.names extra

end Built

/-- The draft of a recipe: its registry, and variables in their order. -/
structure Draft.Sound (d : Draft) : Prop where
  registry : Built d.registry
  env : d.env.Ordered

namespace Draft.Sound

variable {d d' : Draft}

theorem initial (site : Site) (given : Table) : (Draft.initial site given).Sound := ⟨.empty, Table.ordered_nil⟩

theorem setEnv (h : d.Sound) (name value : String) : (d.setEnv name value).Sound := ⟨h.registry, h.env.insert⟩

theorem declareOption (h : d.Sound) {o : OptionDeclaration} {value : String}
    (hd : d.declareOption o = some (d', value)) : d'.Sound := by
  unfold Draft.declareOption at hd
  split at hd
  · cases hd
  · cases hd
    split
    · exact h
    · exact ⟨h.registry, h.env⟩

theorem declareTask (h : d.Sound) {rows : List (String × Value)} {t : Task}
    (hrows : ∀ u, (Value.map rows).Holds u → Declared u) (hd : d.declareTask rows = .ok (d', t)) : d'.Sound := by
  obtain ⟨-, ⟨-, rfl⟩ | ⟨-, hfree, rfl⟩⟩ := Draft.admit?_cases (Draft.declareTask_cases hd).2
  · exact ⟨h.registry, h.env⟩
  · exact ⟨h.registry.insert (.call hrows hd) hfree, h.env⟩

end Draft.Sound

end Recipe
end Taskwork
