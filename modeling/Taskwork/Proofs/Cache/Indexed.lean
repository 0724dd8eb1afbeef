/-
Registries with an index that come out of a cache. The tasks are added one after the other as they lie
in the bytes, so the index is in step with them; where a name lies there twice, the second task of that
name is given back and nothing is read. Without the index what is read is what `decode` reads.
-/
import Taskwork.Cache.Layout
import Taskwork.Proofs.Cache.RoundTrip
import Taskwork.Proofs.Task.Indexed

namespace Taskwork

namespace Registry.Indexed

/-! ## Tasks in a row -/

/-- Adds a task; one whose name is taken stops everything. -/
def add (r : Indexed) (t : Task) : Except Task Indexed := (r.insert t).2.map fun _ => (r.insert t).1

/-- The registry of some tasks; the first one whose name is taken stops it. -/
def ofTasks (env : Table) (tasks : List Task) : Except Task Indexed := tasks.foldlM add (bare env)

variable {r r' : Indexed} {t : Task}

theorem InStep.add_plain (h : r.InStep) (t : Task) : r.plain.insert t = (r.add t).map plain := by
  rw [h.insert_plain, add]
  cases (r.insert t).2 <;> rfl

theorem InStep.add_ok (h : r.InStep) (hadd : r.add t = .ok r') :
    r'.InStep ∧ r'.tasks = r.tasks ++ [t] ∧ r'.env = r.env := by
  unfold add at hadd
  cases hc : r.index.contains t.name with
  | true =>
    rw [insert_of_taken hc] at hadd
    cases hadd
  | false =>
    have hstep := h.insert t
    rw [insert_of_free hc] at hadd hstep
    cases hadd
    exact ⟨hstep, rfl, rfl⟩

theorem InStep.add_error {u : Task} (h : r.InStep) (hadd : r.add t = .error u) : u = t ∧ t.name ∈ r.plain.names := by
  unfold add at hadd
  cases hc : (r.insert t).2 with
  | ok =>
    rw [hc] at hadd
    cases hadd
  | error v =>
    rw [hc] at hadd
    cases hadd
    refine ⟨(insert_error hc).1, ?_⟩
    by_contra hfree
    rw [h.insert_ok_iff.mpr hfree] at hc
    cases hc

theorem InStep.foldlM_plain (tasks : List Task) : ∀ {r : Indexed}, r.InStep →
    tasks.foldlM Registry.insert r.plain = (tasks.foldlM add r).map plain := by
  induction tasks with
  | nil => exact fun _ => rfl
  | cons t tasks ih =>
    intro r h
    rw [List.foldlM_cons, List.foldlM_cons, h.add_plain]
    cases hadd : r.add t with
    | error u => rfl
    | ok r' => exact ih (h.add_ok hadd).1

theorem InStep.foldlM_ok (tasks : List Task) : ∀ {r r' : Indexed}, r.InStep → tasks.foldlM add r = .ok r' →
    r'.InStep ∧ r'.tasks = r.tasks ++ tasks ∧ r'.env = r.env := by
  induction tasks with
  | nil =>
    intro r r' h hread
    cases hread
    exact ⟨h, (List.append_nil _).symm, rfl⟩
  | cons t tasks ih =>
    intro r r' h hread
    rw [List.foldlM_cons] at hread
    cases hadd : r.add t with
    | error u =>
      rw [hadd] at hread
      cases hread
    | ok next =>
      rw [hadd] at hread
      obtain ⟨hstep, htasks, henv⟩ := h.add_ok hadd
      obtain ⟨hstep', htasks', henv'⟩ := ih hstep hread
      refine ⟨hstep', ?_, henv'.trans henv⟩
      rw [htasks', htasks, List.append_assoc, List.singleton_append]

/-- What stops everything is the first task whose name is taken. -/
theorem InStep.foldlM_error (tasks : List Task) : ∀ {r : Indexed} {u : Task}, r.InStep →
    tasks.foldlM add r = .error u →
    ∃ before later, tasks = before ++ u :: later ∧ u.name ∈ r.plain.names ++ before.map (·.name) := by
  induction tasks with
  | nil =>
    intro r u _ hread
    cases hread
  | cons t tasks ih =>
    intro r u h hread
    rw [List.foldlM_cons] at hread
    cases hadd : r.add t with
    | error v =>
      rw [hadd] at hread
      cases hread
      obtain ⟨rfl, hmem⟩ := h.add_error hadd
      exact ⟨[], tasks, rfl, List.mem_append_left _ hmem⟩
    | ok next =>
      rw [hadd] at hread
      obtain ⟨hstep, htasks, -⟩ := h.add_ok hadd
      obtain ⟨before, later, rfl, hmem⟩ := ih hstep hread
      refine ⟨t :: before, later, rfl, ?_⟩
      have hnames : next.plain.names = r.plain.names ++ [t.name] := by
        rw [names, plain, htasks, List.map_append]
        rfl
      rw [hnames, List.append_assoc] at hmem
      exact hmem

theorem ofTasks_plain (env : Table) (tasks : List Task) :
    Registry.ofTasks env tasks = (ofTasks env tasks).map plain :=
  (inStep_bare env).foldlM_plain tasks

theorem ofTasks_ok {env : Table} {tasks : List Task} (h : ofTasks env tasks = .ok r) :
    r.InStep ∧ r.tasks = tasks ∧ r.env = env :=
  (inStep_bare env).foldlM_ok tasks h

theorem ofTasks_of_nodup (env : Table) {tasks : List Task} (h : (tasks.map (·.name)).Nodup) :
    ∃ r, ofTasks env tasks = .ok r := by
  have hplain := (ofTasks_plain env tasks).symm.trans (Registry.ofTasks_of_nodup env h)
  cases hread : ofTasks env tasks with
  | ok r => exact ⟨r, rfl⟩
  | error u =>
    rw [hread] at hplain
    cases hplain

/-- Where a name is there twice, a task is given back that has the name of one before it. -/
theorem ofTasks_of_not_nodup (env : Table) {tasks : List Task} (h : ¬ (tasks.map (·.name)).Nodup) :
    ∃ before u later, tasks = before ++ u :: later ∧ u.name ∈ before.map (·.name) ∧
      ofTasks env tasks = .error u := by
  cases hread : ofTasks env tasks with
  | ok r =>
    obtain ⟨hstep, rfl, -⟩ := ofTasks_ok hread
    exact absurd hstep.nodup h
  | error u =>
    obtain ⟨before, later, rfl, hmem⟩ := (inStep_bare env).foldlM_error tasks hread
    exact ⟨before, u, later, rfl, hmem, rfl⟩

end Registry.Indexed

namespace Cache

open Registry (Indexed Change)

/-! ## Reading -/

/-- The options, the tasks and the environment that lie at the front of some bytes. -/
def decodeParts (bytes : Bytes) : Except Fault (Table × List Task × Table) := do
  let ⟨options, b1, _⟩ ← decodeTable bytes
  let ⟨tasks, b2, _⟩ ← decodeList decodeTask b1
  let ⟨env, _, _⟩ ← decodeTable b2
  return (options, tasks, env)

/-- The options and the registry at the front of some bytes, with its index. -/
def decodeIndexed (bytes : Bytes) : Except Fault (Table × Indexed) := do
  let (options, tasks, env) ← decodeParts bytes
  let r ← (Indexed.ofTasks env tasks).mapError fun t => .storedTwice t.name
  return (options, r)

theorem decode_eq_parts (bytes : Bytes) :
    decode bytes = (decodeParts bytes).bind fun (options, tasks, env) =>
      ((Registry.ofTasks env tasks).mapError fun t => .storedTwice t.name).map fun r => (options, r) := by
  unfold decode decodeRegistry decodeParts
  cases decodeTable bytes with
  | error f => rfl
  | ok options =>
    simp only [bind, Except.bind]
    cases decodeList decodeTask options.rest with
    | error f => rfl
    | ok tasks =>
      dsimp only
      cases decodeTable tasks.rest with
      | error f => rfl
      | ok env =>
        dsimp only [pure, Except.pure]
        cases Registry.ofTasks env.value tasks.value <;> rfl

/-- Without its index the registry is the one that is read. -/
theorem decode_eq_indexed (bytes : Bytes) :
    decode bytes = (decodeIndexed bytes).map fun p => (p.1, p.2.plain) := by
  rw [decode_eq_parts, decodeIndexed]
  cases decodeParts bytes with
  | error f => rfl
  | ok parts =>
    obtain ⟨options, tasks, env⟩ := parts
    simp only [bind, Except.bind]
    rw [Indexed.ofTasks_plain]
    cases Indexed.ofTasks env tasks <;> rfl

theorem decodeIndexed_ok {bytes : Bytes} {options : Table} {r : Indexed}
    (h : decodeIndexed bytes = .ok (options, r)) :
    r.InStep ∧ decodeParts bytes = .ok (options, r.tasks, r.env) := by
  unfold decodeIndexed at h
  cases hparts : decodeParts bytes with
  | error f =>
    rw [hparts] at h
    cases h
  | ok parts =>
    obtain ⟨options', tasks, env⟩ := parts
    rw [hparts] at h
    simp only [bind, Except.bind] at h
    cases hread : Indexed.ofTasks env tasks with
    | error t =>
      rw [hread] at h
      cases h
    | ok r' =>
      rw [hread] at h
      cases h
      obtain ⟨hstep, rfl, rfl⟩ := Indexed.ofTasks_ok hread
      exact ⟨hstep, rfl⟩

theorem decodeIndexed_of_parts {bytes : Bytes} {options env : Table} {tasks : List Task}
    (h : decodeParts bytes = .ok (options, tasks, env)) :
    decodeIndexed bytes =
      ((Indexed.ofTasks env tasks).mapError fun t => .storedTwice t.name).map fun r => (options, r) := by
  unfold decodeIndexed
  rw [h]
  simp only [bind, Except.bind]
  cases Indexed.ofTasks env tasks <;> rfl

/-- Options, tasks and environment lie one behind the other. -/
theorem decodeParts_encode {options env : Table} {tasks : List Task} (ho : TableFits options)
    (ht : ListFits TaskFits tasks) (he : TableFits env) (extra : Bytes) :
    decodeParts (encodeTable options ++ (encodeList encodeTask tasks ++ (encodeTable env ++ extra))) =
      .ok (options, tasks, env) := by
  rw [decodeParts, (takes_table ho _).bind]
  dsimp only
  rw [(takes_list takes_task ht _).bind]
  dsimp only
  rw [(takes_table he _).bind]
  rfl

/-! ## All registries -/

/-- **List and index are in step.** A registry that came about by adding tasks and setting the
environment is reliable. It has the tasks that were accepted, in their turn: those of whose name none was
added before; one that is given back has changed nothing. A registry that was read from any bytes is
reliable, has the tasks that lie there in their order, and is what `decode` reads; it is read whenever
their names are distinct, and where a name lies there twice, that name is the fault. -/
theorem indexed_registries_reliable :
    (∀ changes : List Change,
      (Indexed.build changes).Reliable ∧ (Indexed.build changes).plain = Registry.build changes ∧
      (Indexed.build changes).tasks = (Indexed.bare []).accepted changes ∧
      (∀ t, ((Indexed.build changes).insert t).2 = .ok () ↔ ∀ u, .insert u ∈ changes → u.name ≠ t.name) ∧
      ∀ t u, ((Indexed.build changes).insert t).2 = .error u →
        u = t ∧ ((Indexed.build changes).insert t).1 = Indexed.build changes) ∧
    (∀ bytes, decode bytes = (decodeIndexed bytes).map fun p => (p.1, p.2.plain)) ∧
    (∀ bytes options r, decodeIndexed bytes = .ok (options, r) →
      r.Reliable ∧ decodeParts bytes = .ok (options, r.tasks, r.env)) ∧
    ∀ bytes options tasks env, decodeParts bytes = .ok (options, tasks, env) →
      ((tasks.map (·.name)).Nodup → ∃ r, decodeIndexed bytes = .ok (options, r)) ∧
      (¬ (tasks.map (·.name)).Nodup → ∃ before u later, tasks = before ++ u :: later ∧
        u.name ∈ before.map (·.name) ∧ decodeIndexed bytes = .error (.storedTwice u.name)) := by
  refine ⟨fun changes => ?_, decode_eq_indexed, fun bytes options r h => ?_, fun bytes options tasks env h => ?_⟩
  · have hstep := Indexed.inStep_build changes
    refine ⟨hstep.reliable, Indexed.build_plain changes, Indexed.tasks_build changes, fun t => ?_,
      fun t u => Indexed.insert_error⟩
    rw [hstep.insert_ok_iff, Indexed.mem_names_build]
    constructor
    · intro hfree u hu hname
      exact hfree ⟨u, hu, hname⟩
    · rintro hfree ⟨u, hu, hname⟩
      exact hfree u hu hname
  · obtain ⟨hstep, hparts⟩ := decodeIndexed_ok h
    exact ⟨hstep.reliable, hparts⟩
  · rw [decodeIndexed_of_parts h]
    constructor
    · intro hnodup
      obtain ⟨r, hr⟩ := Indexed.ofTasks_of_nodup env hnodup
      exact ⟨r, by rw [hr]; rfl⟩
    · intro hdup
      obtain ⟨before, u, later, htasks, hname, hu⟩ := Indexed.ofTasks_of_not_nodup env hdup
      exact ⟨before, u, later, htasks, hname, by rw [hu]; rfl⟩

/-- Bytes in which a task lies twice. -/
def twiceStored : Bytes :=
  encodeTable [] ++ (encodeList encodeTask [.empty "build" "/src", .empty "build" "/src"] ++ (encodeTable [] ++ []))

theorem twiceStored_not_read :
    decodeParts twiceStored = .ok ([], [.empty "build" "/src", .empty "build" "/src"], []) ∧
      decodeIndexed twiceStored = .error (.storedTwice "build") := by
  have htable : TableFits [] := by
    simp [TableFits, ListFits, Countable, Table.Ordered]
  have htasks : ListFits TaskFits [.empty "build" "/src", .empty "build" "/src"] := by
    simp [ListFits, TaskFits, CommandsFit, TableFits, TextFits, Countable, Table.Ordered, Task.empty]
    decide
  have hparts := decodeParts_encode htable htasks htable []
  obtain ⟨before, u, later, hrow, -, hfault⟩ :=
    (indexed_registries_reliable.2.2.2 twiceStored _ _ _ hparts).2 (by decide)
  have hname : u.name = "build" := by
    have hmem : u ∈ [Task.empty "build" "/src", .empty "build" "/src"] := by rw [hrow]; simp
    simp only [List.mem_cons, List.not_mem_nil, or_false, or_self] at hmem
    rw [hmem]
    rfl
  exact ⟨hparts, by rw [hfault, hname]⟩

end Cache
end Taskwork
