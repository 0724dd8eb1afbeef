/-
Which tasks need which. A task needs those its dependencies name in the registry, and the tasks among
its commands; the tasks held by a registry are those in it and the tasks in these, and whatever a held
task needs is held as well.
-/
import Taskwork.Proofs.Task.Registry
import Mathlib.Data.List.Perm.Subperm
import Mathlib.Logic.Relation

namespace Taskwork

open Relation

/-! ## Tasks within tasks -/

namespace Task

mutual

/-- The tasks in a task, itself included. -/
def nested : Task → List Task
  | ⟨name, description, visible, base, deps, inputs, outputs, skipIfExists, env, cmds⟩ =>
    ⟨name, description, visible, base, deps, inputs, outputs, skipIfExists, env, cmds⟩ :: nestedIn cmds

def nestedIn : List TaskCommand → List Task
  | [] => []
  | .script _ :: rest => nestedIn rest
  | .task t :: rest => t.nested ++ nestedIn rest

end

theorem nested_eq (t : Task) : t.nested = t :: nestedIn t.cmds := by
  cases t
  rfl

theorem self_mem_nested (t : Task) : t ∈ t.nested := by
  rw [nested_eq]
  exact List.mem_cons_self

mutual

theorem length_nested : ∀ t : Task, t.nested.length = t.size
  | ⟨_, _, _, _, _, _, _, _, _, cmds⟩ => by
    rw [nested, List.length_cons, size, length_nestedIn cmds, Nat.add_comm]

theorem length_nestedIn : ∀ cmds : List TaskCommand, (nestedIn cmds).length = sizeOfCommands cmds
  | [] => rfl
  | .script _ :: rest => by rw [nestedIn, sizeOfCommands, length_nestedIn rest]
  | .task t :: rest => by
    rw [nestedIn, sizeOfCommands, List.length_append, length_nested t, length_nestedIn rest]

end

/-- What is nested in a task among some commands is nested in them. -/
theorem nested_subset_nestedIn {u : Task} : ∀ cmds : List TaskCommand, u ∈ embedded cmds → u.nested ⊆ nestedIn cmds
  | .script _ :: rest, h => nested_subset_nestedIn rest h
  | .task t :: rest, h => by
    rw [nestedIn]
    rcases List.mem_cons.1 h with rfl | h
    · exact List.subset_append_left ..
    · exact List.subset_append_of_subset_right _ (nested_subset_nestedIn rest h)

theorem nested_subset {t u : Task} (hu : u ∈ t.subTasks) : u.nested ⊆ t.nested := by
  rw [nested_eq t]
  exact List.subset_cons_of_subset _ (nested_subset_nestedIn t.cmds hu)

/-- A task among some commands is nested in them. -/
theorem mem_nestedIn {u : Task} {cmds : List TaskCommand} (h : u ∈ embedded cmds) : u ∈ nestedIn cmds :=
  nested_subset_nestedIn cmds h u.self_mem_nested

mutual

/-- What is a command of a nested task is nested. -/
theorem subTask_mem_nested {t u : Task} (hu : u ∈ t.subTasks) :
    ∀ root : Task, t ∈ root.nested → u ∈ root.nested
  | ⟨_, _, _, _, _, _, _, _, _, cmds⟩, h => by
    rw [nested] at h ⊢
    rcases List.mem_cons.1 h with rfl | h
    · exact List.mem_cons_of_mem _ (mem_nestedIn hu)
    · exact List.mem_cons_of_mem _ (subTask_mem_nestedIn hu cmds h)

theorem subTask_mem_nestedIn {t u : Task} (hu : u ∈ t.subTasks) :
    ∀ cmds : List TaskCommand, t ∈ nestedIn cmds → u ∈ nestedIn cmds
  | [], h => by cases h
  | .script _ :: rest, h => subTask_mem_nestedIn hu rest h
  | .task v :: rest, h => by
    rw [nestedIn, List.mem_append] at h ⊢
    exact h.imp (subTask_mem_nested hu v) (subTask_mem_nestedIn hu rest)

end

end Task

/-! ## What a registry holds -/

namespace Registry

variable {r : Registry}

/-- The tasks of a registry and the tasks in them. -/
def held (r : Registry) : List Task := r.tasks.flatMap Task.nested

theorem length_held (r : Registry) : r.held.length = Task.sizeOfAll r.tasks := by
  unfold held
  induction r.tasks with
  | nil => rfl
  | cons t rest ih => rw [List.flatMap_cons, List.length_append, Task.length_nested, ih, Task.sizeOfAll]

theorem mem_held_of_get? {name : String} {t : Task} (h : r.get? name = some t) : t ∈ r.held := by
  obtain ⟨i, -, ht⟩ := Option.bind_eq_some_iff.mp h
  exact List.mem_flatMap.2 ⟨t, List.mem_of_getElem? ht, t.self_mem_nested⟩

/-- A task needs another one directly. -/
inductive Needs (r : Registry) (t u : Task) : Prop where
  | dependency {name : String} (hdep : name ∈ t.deps) (hget : r.get? name = some u)
  | command (hmem : u ∈ t.subTasks)

/-- A task has another one as a dependency. -/
def DependsOn (r : Registry) (t u : Task) : Prop := ∃ name ∈ t.deps, r.get? name = some u

theorem Needs.mem_held {t u : Task} (h : r.Needs t u) (ht : t ∈ r.held) : u ∈ r.held := by
  cases h with
  | dependency _ hget => exact mem_held_of_get? hget
  | command hmem =>
    obtain ⟨root, hroot, ht⟩ := List.mem_flatMap.1 ht
    exact List.mem_flatMap.2 ⟨root, hroot, Task.subTask_mem_nested hmem root ht⟩

theorem mem_held_of_reaches {root t : Task} (hroot : root ∈ r.held) (h : ReflTransGen r.Needs root t) :
    t ∈ r.held := by
  induction h with
  | refl => exact hroot
  | tail _ hneeds ih => exact hneeds.mem_held ih

/-- The names of what a task needs directly. -/
def neededNames (t : Task) : List String := t.deps ++ t.subTasks.map (·.name)

theorem Needs.name_mem {t u : Task} (h : r.Needs t u) : u.name ∈ neededNames t := by
  cases h with
  | dependency hdep hget => exact List.mem_append_left _ (name_of_get? hget ▸ hdep)
  | command hmem => exact List.mem_append_right _ (List.mem_map_of_mem hmem)

/-- Where what is needed is always lower, no task needs one of its own name. -/
theorem acyclic_of_rank (rank : String → Nat)
    (hrank : ∀ t ∈ r.held, ∀ name ∈ neededNames t, rank name < rank t.name) :
    ∀ t ∈ r.held, ∀ u, TransGen r.Needs t u → t.name ≠ u.name := by
  intro t ht u htu
  suffices rank u.name < rank t.name from fun hname => Nat.lt_irrefl _ (hname ▸ this)
  induction htu with
  | single hneeds => exact hrank t ht _ hneeds.name_mem
  | tail hreach hneeds ih =>
    exact Nat.lt_trans (hrank _ (mem_held_of_reaches ht hreach.to_reflTransGen) _ hneeds.name_mem) ih

/-- Names tell tasks apart: a held task that bears the name of a registered one has its dependencies. -/
def NamesIdentify (r : Registry) : Prop := ∀ t ∈ r.held, ∀ u, r.get? t.name = some u → t.deps = u.deps

/-- From `root` a task of this name is reached that needs, in one or more steps, a task of this name. -/
def InCycle (r : Registry) (root : Task) (name : String) : Prop :=
  ∃ t u, ReflTransGen r.Needs root t ∧ TransGen r.Needs t u ∧ t.name = name ∧ u.name = name

/-! ## Tasks in progress -/

/-- A task that is called while others are in progress, the innermost first: each of them needs the
one before it, and the outermost is `root`. -/
def Called (r : Registry) (root : Task) : List Task → Task → Prop
  | [], t => t = root
  | u :: stack, t => r.Needs u t ∧ Called r root stack u

namespace Called

variable {root : Task}

theorem reaches : ∀ {stack : List Task} {t : Task}, r.Called root stack t → ReflTransGen r.Needs root t
  | [], _, rfl => .refl
  | _ :: _, _, ⟨hneeds, h⟩ => h.reaches.tail hneeds

theorem mem_held (hroot : root ∈ r.held) :
    ∀ {stack : List Task} {t : Task}, r.Called root stack t → ∀ u ∈ t :: stack, u ∈ r.held
  | [], _, rfl => by simpa using hroot
  | v :: stack, t, ⟨hneeds, h⟩ => by
    have hstack := h.mem_held hroot
    exact List.forall_mem_cons.2 ⟨hneeds.mem_held (hstack v List.mem_cons_self), hstack⟩

/-- What is in progress needs what is called. -/
theorem reaches_from {u : Task} : ∀ {stack : List Task} {t : Task}, r.Called root stack t → u ∈ stack →
    ReflTransGen r.Needs root u ∧ TransGen r.Needs u t
  | v :: stack, t, ⟨hneeds, h⟩, hu => by
    rcases List.mem_cons.1 hu with rfl | hu
    · exact ⟨h.reaches, .single hneeds⟩
    · exact (h.reaches_from hu).imp_right fun hv => hv.tail hneeds

/-- Of more tasks in progress than there are, two would have one name. -/
theorem length_le (hroot : root ∈ r.held) {stack : List Task} {t : Task} (h : r.Called root stack t)
    (hnodup : ((t :: stack).map (·.name)).Nodup) : stack.length + 1 ≤ Task.sizeOfAll r.tasks := by
  have hsub : (t :: stack).map (·.name) ⊆ r.held.map (·.name) :=
    List.map_subset _ (h.mem_held hroot)
  have hle := (hnodup.subperm hsub).length_le
  rwa [List.length_map, List.length_map, length_held, List.length_cons] at hle

end Called
end Registry
end Taskwork
