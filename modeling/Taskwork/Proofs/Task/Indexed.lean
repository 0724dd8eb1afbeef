/-
Registries that find their tasks by an index: beside the list of the tasks there is a map from names to
places in the list. The two are in step if the map takes a name to a place exactly when the task at that
place has the name. Adding a task keeps them in step, since its name is new and its place is behind all
others; so after every history the index finds what going through the list finds.
-/
import Taskwork.Proofs.Task.Registry

namespace Taskwork.Registry

/-- A registry with the places of its tasks by name. -/
structure Indexed where
  tasks : List Task
  index : Std.HashMap String Nat
  env : Table

namespace Indexed

/-- A registry without tasks. -/
def bare (env : Table) : Indexed := ⟨[], ∅, env⟩

/-- Adds a task at the end, and its place to the index; a task whose name is taken is given back. -/
def insert (r : Indexed) (t : Task) : Indexed × Except Task Unit :=
  if r.index.contains t.name then (r, .error t)
  else ({ r with index := r.index.insert t.name r.tasks.length, tasks := r.tasks ++ [t] }, .ok ())

def setEnv (r : Indexed) (env : Table) : Indexed := { r with env }

/-- The task of a name, if there is one; a place that is not in the list is a fault. -/
def get (r : Indexed) (name : String) : Except Nat (Option Task) :=
  match r.index[name]? with
  | none => .ok none
  | some i => match r.tasks[i]? with
    | some t => .ok (some t)
    | none => .error i

/-- The same registry without its index. -/
def plain (r : Indexed) : Registry := ⟨r.tasks, r.env⟩

/-- The index takes a name to a place exactly when the task at that place has the name. -/
def InStep (r : Indexed) : Prop :=
  ∀ name i, r.index[name]? = some i ↔ ∃ t : Task, r.tasks[i]? = some t ∧ t.name = name

variable {r : Indexed} {t : Task}

/-! ## What the index finds -/

namespace InStep

/-- The index finds the place that going through the list finds. -/
theorem index?_eq (h : r.InStep) (name : String) : r.index[name]? = r.plain.index? name := by
  cases hi : r.plain.index? name with
  | some i =>
    obtain ⟨hlt, hname, -⟩ := List.findIdx?_eq_some_iff_getElem.mp hi
    exact (h name i).mpr ⟨_, List.getElem?_eq_getElem hlt, beq_iff_eq.mp hname⟩
  | none =>
    rw [Option.eq_none_iff_forall_ne_some]
    intro i hsome
    obtain ⟨t, ht, hname⟩ := (h name i).mp hsome
    have hne := List.findIdx?_eq_none_iff.mp hi t (List.mem_of_getElem? ht)
    exact absurd hname (beq_eq_false_iff_ne.mp hne)

theorem contains_eq (h : r.InStep) (name : String) : r.index.contains name = r.plain.contains name := by
  rw [Std.HashMap.contains_eq_isSome_getElem?, h.index?_eq, Registry.contains]

/-- Looking up a name never leaves the list. -/
theorem get_eq (h : r.InStep) (name : String) : r.get name = .ok (r.plain.get? name) := by
  unfold get Registry.get?
  rw [← h.index?_eq]
  cases hi : r.index[name]? with
  | none => rfl
  | some i =>
    obtain ⟨t, ht, -⟩ := (h name i).mp hi
    have ht' : r.plain.tasks[i]? = some t := ht
    rw [Option.bind_some, ht']
    simp only [ht]

theorem index_eq_some_iff (h : r.InStep) {name : String} {i : Nat} :
    r.index[name]? = some i ↔ r.plain.names[i]? = some name := by
  rw [h, names, List.getElem?_map, Option.map_eq_some_iff, plain]

/-- Two places of one name are one place, so no name is there twice. -/
theorem nodup (h : r.InStep) : r.plain.names.Nodup := by
  rw [List.nodup_iff_getElem?_ne_getElem?]
  intro i j hij hj heq
  have hj : r.plain.names[j]? = some r.plain.names[j] := List.getElem?_eq_getElem hj
  have hplace := (h.index_eq_some_iff.mpr (heq.trans hj)).symm.trans (h.index_eq_some_iff.mpr hj)
  exact Nat.ne_of_lt hij (Option.some.inj hplace)

/-- What is found under a name is the one task of that name. -/
theorem get_eq_some_iff (h : r.InStep) {name : String} :
    r.get name = .ok (some t) ↔ t ∈ r.tasks ∧ t.name = name := by
  have hfound : r.plain.get? name = r.index[name]?.bind fun i => r.tasks[i]? := by
    rw [h.index?_eq]
    rfl
  rw [h.get_eq, Except.ok.injEq, hfound, Option.bind_eq_some_iff]
  constructor
  · rintro ⟨i, hi, ht⟩
    obtain ⟨u, hu, hname⟩ := (h name i).mp hi
    obtain rfl : u = t := Option.some.inj (hu.symm.trans ht)
    exact ⟨List.mem_of_getElem? ht, hname⟩
  · rintro ⟨ht, hname⟩
    obtain ⟨i, hi⟩ := List.mem_iff_getElem?.mp ht
    exact ⟨i, (h name i).mpr ⟨t, hi, hname⟩, hi⟩

end InStep

/-- What is asked of a registry with an index: its names are distinct, the index leads to them, and looking
up a name finds the task of that name and never leaves the list. What is found is what is found without
the index. -/
structure Reliable (r : Indexed) : Prop where
  index_iff : ∀ name i, r.index[name]? = some i ↔ ∃ t : Task, r.tasks[i]? = some t ∧ t.name = name
  distinct : (r.tasks.map (·.name)).Nodup
  in_range : ∀ name i, r.get name ≠ .error i
  get_iff : ∀ name t, r.get name = .ok (some t) ↔ t ∈ r.tasks ∧ t.name = name
  index?_eq : ∀ name, r.index[name]? = r.plain.index? name
  contains_eq : ∀ name, r.index.contains name = r.plain.contains name
  get_eq : ∀ name, r.get name = .ok (r.plain.get? name)

theorem InStep.reliable (h : r.InStep) : r.Reliable where
  index_iff := h
  distinct := h.nodup
  in_range name i := by
    rw [h.get_eq]
    intro herror
    cases herror
  get_iff _ _ := h.get_eq_some_iff
  index?_eq := h.index?_eq
  contains_eq := h.contains_eq
  get_eq := h.get_eq

/-! ## Adding a task -/

theorem inStep_bare (env : Table) : (bare env).InStep := by
  intro name i
  simp [bare]

theorem insert_of_taken (h : r.index.contains t.name = true) : r.insert t = (r, .error t) := by
  rw [insert, if_pos h]

theorem insert_of_free (h : r.index.contains t.name = false) :
    r.insert t =
      ({ r with index := r.index.insert t.name r.tasks.length, tasks := r.tasks ++ [t] }, .ok ()) := by
  rw [insert, if_neg (by rw [h]; exact Bool.false_ne_true)]

/-- A task that is given back has changed nothing. -/
theorem insert_error {u : Task} (h : (r.insert t).2 = .error u) : u = t ∧ (r.insert t).1 = r := by
  cases hc : r.index.contains t.name with
  | true =>
    rw [insert_of_taken hc] at h ⊢
    exact ⟨(Except.error.inj h).symm, rfl⟩
  | false =>
    rw [insert_of_free hc] at h
    cases h

theorem InStep.insert (h : r.InStep) (t : Task) : (r.insert t).1.InStep := by
  cases hc : r.index.contains t.name with
  | true =>
    rw [insert_of_taken hc]
    exact h
  | false =>
    rw [insert_of_free hc]
    intro name i
    -- The new place is the only one of the new name, and all others are as they were.
    have hfree : ∀ u, r.tasks[i]? = some u → u.name ≠ t.name := by
      intro u hu hname
      have hsome := (h t.name i).mpr ⟨u, hu, hname⟩
      rw [Std.HashMap.contains_eq_isSome_getElem?, hsome] at hc
      cases hc
    have hlast : (r.tasks ++ [t])[i]? = if i = r.tasks.length then some t else r.tasks[i]? := by
      rw [← List.concat_eq_append]
      grind
    show (r.index.insert t.name r.tasks.length)[name]? = some i ↔
      ∃ u : Task, (r.tasks ++ [t])[i]? = some u ∧ u.name = name
    rw [Std.HashMap.getElem?_insert, hlast]
    by_cases hname : t.name = name
    · subst hname
      rw [if_pos (beq_self_eq_true _), Option.some_inj]
      constructor
      · rintro rfl
        exact ⟨t, if_pos rfl, rfl⟩
      · rintro ⟨u, hu, hname⟩
        by_contra hi
        rw [if_neg fun hi' => hi hi'.symm] at hu
        exact hfree u hu hname
    · rw [if_neg (by simpa using hname), h name i]
      by_cases hi : i = r.tasks.length
      · subst hi
        simp [hname]
      · rw [if_neg hi]

theorem InStep.setEnv (h : r.InStep) (env : Table) : (r.setEnv env).InStep := h

/-- Adding a task does to the list what it does to a registry without an index. -/
theorem InStep.insert_plain (h : r.InStep) (t : Task) :
    r.plain.insert t = (r.insert t).2.map fun _ => (r.insert t).1.plain := by
  have hcontains := h.contains_eq t.name
  cases hc : r.index.contains t.name with
  | true =>
    rw [insert_of_taken hc, Registry.insert, if_pos (hcontains.symm.trans hc)]
    rfl
  | false =>
    rw [insert_of_free hc, Registry.insert, if_neg]
    · rfl
    · rw [← hcontains, hc]
      exact Bool.false_ne_true

/-- A task is accepted if no task has its name. -/
theorem InStep.insert_ok_iff (h : r.InStep) : (r.insert t).2 = .ok () ↔ t.name ∉ r.plain.names := by
  rw [← contains_iff, ← h.contains_eq]
  cases hc : r.index.contains t.name with
  | true => simp [insert_of_taken hc]
  | false => simp [insert_of_free hc]

/-! ## Histories -/

/-- The registry after a change. -/
def after (r : Indexed) : Change → Indexed
  | .insert t => (r.insert t).1
  | .setEnv env => r.setEnv env

/-- The registry that some changes make of the empty one. -/
def build (changes : List Change) : Indexed := changes.foldl after (bare [])

/-- The tasks that are accepted in the course of some changes, one after the other. -/
def accepted (r : Indexed) : List Change → List Task
  | [] => []
  | c :: changes =>
    let rest := (r.after c).accepted changes
    match c with
    | .setEnv _ => rest
    | .insert t => match (r.insert t).2 with
      | .ok () => t :: rest
      | .error _ => rest

theorem InStep.after (h : r.InStep) (c : Change) : (r.after c).InStep := by
  cases c with
  | insert t => exact h.insert t
  | setEnv env => exact h.setEnv env

theorem InStep.after_plain (h : r.InStep) (c : Change) : (r.after c).plain = r.plain.after c := by
  cases c with
  | setEnv env => rfl
  | insert t =>
    unfold Registry.after
    dsimp only
    rw [h.insert_plain t]
    cases ht : (r.insert t).2 with
    | ok => rfl
    | error u => exact congrArg plain (insert_error ht).2

/-- One change adds the task that it is accepted of, if it is. -/
theorem tasks_after (r : Indexed) (c : Change) : (r.after c).tasks = r.tasks ++ r.accepted [c] := by
  cases c with
  | setEnv env => exact (List.append_nil _).symm
  | insert t =>
    cases hc : r.index.contains t.name with
    | true => simp [Indexed.after, accepted, insert_of_taken hc]
    | false => simp [Indexed.after, accepted, insert_of_free hc]

theorem accepted_cons (r : Indexed) (c : Change) (changes : List Change) :
    r.accepted (c :: changes) = r.accepted [c] ++ (r.after c).accepted changes := by
  cases c with
  | setEnv env => rfl
  | insert t =>
    rw [accepted, accepted, accepted]
    cases (r.insert t).2 <;> rfl

/-- The run of a history keeps list and index in step and adds the accepted tasks in their turn. -/
theorem InStep.foldl (changes : List Change) : ∀ {r : Indexed}, r.InStep →
    (changes.foldl Indexed.after r).InStep ∧
      (changes.foldl Indexed.after r).tasks = r.tasks ++ r.accepted changes ∧
      (changes.foldl Indexed.after r).plain = changes.foldl Registry.after r.plain := by
  induction changes with
  | nil => exact fun h => ⟨h, (List.append_nil _).symm, rfl⟩
  | cons c changes ih =>
    intro r h
    obtain ⟨hstep, htasks, hplain⟩ := ih (h.after c)
    refine ⟨hstep, ?_, ?_⟩
    · rw [List.foldl_cons, htasks, tasks_after, List.append_assoc, ← accepted_cons]
    · rw [List.foldl_cons, hplain, h.after_plain, List.foldl_cons]

theorem inStep_build (changes : List Change) : (build changes).InStep := ((inStep_bare []).foldl changes).1

theorem tasks_build (changes : List Change) : (build changes).tasks = (bare []).accepted changes :=
  ((inStep_bare []).foldl changes).2.1

/-- A change adds the name of the task that it inserts, also if the task is given back. -/
theorem InStep.mem_names_after (h : r.InStep) (c : Change) {name : String} :
    name ∈ (r.after c).plain.names ↔ name ∈ r.plain.names ∨ ∃ t, c = .insert t ∧ t.name = name := by
  cases c with
  | setEnv env => simp [Indexed.after, Indexed.setEnv, names, plain]
  | insert t =>
    cases hc : r.index.contains t.name with
    | false => simp [Indexed.after, insert_of_free hc, names, plain, eq_comm]
    | true =>
      have htaken : t.name ∈ r.plain.names := contains_iff.mp ((h.contains_eq t.name).symm.trans hc)
      rw [Indexed.after, insert_of_taken hc]
      refine ⟨.inl, fun hname => hname.elim id ?_⟩
      rintro ⟨u, hu, rfl⟩
      cases hu
      exact htaken

theorem InStep.mem_names_foldl (changes : List Change) : ∀ {r : Indexed}, r.InStep → ∀ {name : String},
    (name ∈ (changes.foldl Indexed.after r).plain.names ↔
      name ∈ r.plain.names ∨ ∃ t, .insert t ∈ changes ∧ t.name = name) := by
  induction changes with
  | nil => simp
  | cons c changes ih =>
    intro r h name
    rw [List.foldl_cons, ih (h.after c), h.mem_names_after, or_assoc, ← exists_or]
    simp only [List.mem_cons, or_and_right, eq_comm]

theorem mem_names_build (changes : List Change) {name : String} :
    name ∈ (build changes).plain.names ↔ ∃ t, .insert t ∈ changes ∧ t.name = name := by
  rw [build, (inStep_bare []).mem_names_foldl]
  exact or_iff_right List.not_mem_nil

theorem build_plain (changes : List Change) : (build changes).plain = Registry.build changes :=
  ((inStep_bare []).foldl changes).2.2

end Indexed
end Taskwork.Registry
