/-
Registries as they come about: from the empty one, by adding tasks, of which those whose name is
taken are given back, and by setting the environment. No two tasks of such a registry have one name,
and so adding its tasks anew gives the same registry.
-/
import Taskwork.Task.Registry
import Mathlib.Data.List.Nodup

namespace Taskwork.Registry

/-! ## Looking up a task -/

theorem name_of_get? {r : Registry} {name : String} {t : Task} (h : r.get? name = some t) :
    t.name = name := by
  unfold get? index? at h
  obtain ⟨i, hi, ht⟩ := Option.bind_eq_some_iff.mp h
  obtain ⟨hlt, hname, -⟩ := List.findIdx?_eq_some_iff_getElem.mp hi
  rw [List.getElem?_eq_getElem hlt, Option.some_inj] at ht
  rw [← ht]
  exact beq_iff_eq.mp hname

/-! ## Adding a task -/

theorem contains_iff {r : Registry} {name : String} : r.contains name = true ↔ name ∈ r.names := by
  rw [contains, index?, List.findIdx?_isSome, List.any_eq_true, names, List.mem_map]
  simp only [beq_iff_eq]

/-- A task whose name is free comes last. -/
theorem insert_of_not_mem {r : Registry} {t : Task} (h : t.name ∉ r.names) :
    r.insert t = .ok { r with tasks := r.tasks ++ [t] } := by
  rw [insert, if_neg (mt contains_iff.1 h)]

/-- A task whose name is taken is given back. -/
theorem insert_of_mem {r : Registry} {t : Task} (h : t.name ∈ r.names) : r.insert t = .error t := by
  rw [insert, if_pos (contains_iff.2 h)]

/-- Adding tasks of free and different names keeps them all in order. -/
theorem foldlM_insert (env : Table) (more : List Task) :
    ∀ done : List Task, ((done ++ more).map (·.name)).Nodup →
      more.foldlM insert ⟨done, env⟩ = (.ok ⟨done ++ more, env⟩ : Except Task Registry) := by
  induction more with
  | nil => intro done _; rw [List.append_nil]; rfl
  | cons t more ih =>
    intro done h
    have hstep : done ++ t :: more = done ++ [t] ++ more := by
      rw [List.append_assoc, List.singleton_append]
    have hfree : t.name ∉ names ⟨done, env⟩ := fun hm => by
      rw [List.map_append, List.map_cons] at h
      exact (List.nodup_append.1 h).2.2 _ hm _ (List.mem_cons_self ..) rfl
    rw [List.foldlM_cons, insert_of_not_mem hfree, hstep]
    exact ih (done ++ [t]) (by rw [← hstep]; exact h)

/-- The registry of tasks of different names. -/
theorem ofTasks_of_nodup {tasks : List Task} (env : Table) (h : (tasks.map (·.name)).Nodup) :
    ofTasks env tasks = .ok ⟨tasks, env⟩ :=
  foldlM_insert env tasks [] h

/-! ## Histories -/

/-- What is done to a registry. -/
inductive Change where
  | insert (t : Task)
  | setEnv (env : Table)

/-- The registry after a change; a task that is given back leaves it as it is. -/
def after (r : Registry) : Change → Registry
  | .insert t => match r.insert t with
    | .ok r' => r'
    | .error _ => r
  | .setEnv env => r.setEnv env

/-- The registry that some changes make of the empty one. -/
def build (changes : List Change) : Registry := changes.foldl after empty

theorem names_nodup_after {r : Registry} (h : r.names.Nodup) (c : Change) : (r.after c).names.Nodup := by
  cases c with
  | setEnv env => exact h
  | insert t =>
    by_cases hm : t.name ∈ r.names
    · rw [after, insert_of_mem hm]; exact h
    · rw [after, insert_of_not_mem hm]
      show ((r.tasks ++ [t]).map (·.name)).Nodup
      rw [List.map_append, List.map_singleton, ← List.concat_eq_append]
      exact h.concat hm

theorem names_nodup_foldl (changes : List Change) :
    ∀ {r : Registry}, r.names.Nodup → (changes.foldl after r).names.Nodup := by
  induction changes with
  | nil => exact id
  | cons c changes ih => exact fun h => ih (names_nodup_after h c)

/-- No two tasks of a registry have one name. -/
theorem names_nodup_build (changes : List Change) : (build changes).names.Nodup :=
  names_nodup_foldl changes List.nodup_nil

end Taskwork.Registry
