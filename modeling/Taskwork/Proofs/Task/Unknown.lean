/-
Dependencies that name no task of the registry. The search for them goes through the registered tasks and
those in them, and looks at the first task of each name only. Where names tell tasks apart it misses none:
what is in a task that was looked at has been looked at as well, or is still to come. So it finds what is
missing from the held tasks and nothing else (`mem_unknownDependencies_iff`), and each of these as often as
the task lists it (`count_unknownDependencies`).
-/
import Mathlib.Data.List.Count
import Mathlib.Data.List.Sort
import Mathlib.Data.Prod.Lex
import Taskwork.Proofs.Table
import Taskwork.Proofs.Task.Needs

namespace Taskwork.Registry

variable {r : Registry}

/-- A name stands for one task, whether it is registered or in another one. -/
def NamesDistinguish (r : Registry) : Prop := ∀ t ∈ r.held, ∀ u ∈ r.held, t.name = u.name → t = u

theorem isSome_get? (r : Registry) (name : String) : (r.get? name).isSome = r.contains name := by
  unfold contains get?
  cases hindex : r.index? name with
  | none => rfl
  | some i =>
    obtain ⟨hlt, -⟩ := List.findIdx?_eq_some_iff_getElem.1 hindex
    rw [Option.bind_some, List.getElem?_eq_getElem hlt]
    rfl

/-- The tasks in those whose names were seen have been seen, or are still to come. -/
def Closed (r : Registry) (seen : List String) (stack : List Task) : Prop :=
  ∀ v ∈ r.held, v.name ∈ seen → ∀ u ∈ v.subTasks, u.name ∈ seen ∨ u ∈ stack

theorem Closed.skip {seen : List String} {v : Task} {stack : List Task} (h : r.Closed seen (v :: stack))
    (hv : v.name ∈ seen) : r.Closed seen stack := by
  intro w hw hseen u hu
  rcases h w hw hseen u hu with hu | hu
  · exact .inl hu
  · rcases List.mem_cons.1 hu with rfl | hu
    · exact .inl hv
    · exact .inr hu

/-- The tasks in one that is looked at are still to come. -/
theorem Closed.look (hid : r.NamesDistinguish) {seen : List String} {v : Task} {stack : List Task}
    (hv : v ∈ r.held) (h : r.Closed seen (v :: stack)) :
    r.Closed (v.name :: seen) (v.subTasks.reverse ++ stack) := by
  intro w hw hseen u hu
  rcases List.mem_cons.1 hseen with hname | hseen
  · obtain rfl := hid w hw v hv hname
    exact .inr (List.mem_append_left _ (List.mem_reverse.2 hu))
  · rcases h w hw hseen u hu with hu | hu
    · exact .inl (List.mem_cons_of_mem _ hu)
    · rcases List.mem_cons.1 hu with rfl | hu
      · exact .inl List.mem_cons_self
      · exact .inr (List.mem_append_right _ hu)

theorem held_look {v : Task} {stack : List Task} (h : ∀ w ∈ v :: stack, w ∈ r.held) :
    ∀ w ∈ v.subTasks.reverse ++ stack, w ∈ r.held := by
  intro w hw
  rcases List.mem_append.1 hw with hw | hw
  · exact (Needs.command (List.mem_reverse.1 hw)).mem_held (h v List.mem_cons_self)
  · exact h w (List.mem_cons_of_mem _ hw)

section Seen

variable {seen : List String} {stack : List Task} {t : Task}

mutual

/-- What is in a task that was seen and has not been seen itself is in one that is still to come. -/
theorem Closed.exists_of_seen (h : r.Closed seen stack) (ht : t.name ∉ seen) :
    ∀ v : Task, v ∈ r.held → v.name ∈ seen → t ∈ v.nested → ∃ u ∈ stack, t ∈ u.nested
  | ⟨name, description, visible, base, deps, inputs, outputs, skipIfExists, env, cmds⟩, hv, hseen, hmem => by
    rw [Task.nested] at hmem
    rcases List.mem_cons.1 hmem with rfl | hmem
    · exact absurd hseen ht
    · refine h.exists_of_seen_in ht cmds (fun u hu => ⟨?_, h _ hv hseen u hu⟩) hmem
      exact (Needs.command hu).mem_held hv

theorem Closed.exists_of_seen_in (h : r.Closed seen stack) (ht : t.name ∉ seen) :
    ∀ cmds : List TaskCommand, (∀ u ∈ Task.embedded cmds, u ∈ r.held ∧ (u.name ∈ seen ∨ u ∈ stack)) →
      t ∈ Task.nestedIn cmds → ∃ u ∈ stack, t ∈ u.nested
  | .script _ :: rest, hall, hmem => h.exists_of_seen_in ht rest hall hmem
  | .task v :: rest, hall, hmem => by
    rw [Task.nestedIn, List.mem_append] at hmem
    rcases hmem with hmem | hmem
    · obtain ⟨hv, hseen | hstack⟩ := hall v List.mem_cons_self
      · exact h.exists_of_seen ht v hv hseen hmem
      · exact ⟨v, hstack, hmem⟩
    · exact h.exists_of_seen_in ht rest (fun u hu => hall u (List.mem_cons_of_mem _ hu)) hmem

end

end Seen

/-! ## The tasks that are looked at -/

/-- The tasks that the search looks at: the first one of each name, among those of `stack` and the tasks
in them, the last ones first. -/
def lookedAt (seen : List String) : List Task → List Task
  | [] => []
  | t :: stack =>
    if seen.contains t.name then lookedAt seen stack
    else t :: lookedAt (t.name :: seen) (t.subTasks.reverse ++ stack)
termination_by stack => Task.sizeOfAll stack
decreasing_by
  · rw [Task.sizeOfAll, Task.size_eq]; omega
  · rw [Task.sizeOfAll_append, Task.sizeOfAll_reverse, Task.sizeOfAll, Task.size_eq]; omega

/-- The search gives what is missing from each task it looks at. -/
theorem missingAmong_eq (r : Registry) (seen : List String) (stack : List Task) :
    r.missingAmong seen stack = (lookedAt seen stack).flatMap r.missingFrom := by
  induction seen, stack using missingAmong.induct with
  | case1 seen => rw [missingAmong, lookedAt, List.flatMap_nil]
  | case2 seen v stack hseen ih => rw [missingAmong, lookedAt, if_pos hseen, if_pos hseen, ih]
  | case3 seen v stack hseen ih =>
    rw [missingAmong, lookedAt, if_neg hseen, if_neg hseen, List.flatMap_cons, ih]

/-- Of each name it looks at one task, and at none whose name was seen before. -/
theorem names_lookedAt (seen : List String) (stack : List Task) :
    ((lookedAt seen stack).map (·.name)).Nodup ∧ ∀ t ∈ lookedAt seen stack, t.name ∉ seen := by
  induction seen, stack using lookedAt.induct with
  | case1 seen =>
    rw [lookedAt]
    exact ⟨List.nodup_nil, nofun⟩
  | case2 seen v stack hseen ih =>
    rw [lookedAt, if_pos hseen]
    exact ih
  | case3 seen v stack hseen ih =>
    have hv : v.name ∉ seen := mt List.contains_iff_mem.2 hseen
    rw [lookedAt, if_neg hseen, List.map_cons, List.nodup_cons, List.forall_mem_cons]
    refine ⟨⟨fun hmem => ?_, ih.1⟩, hv, fun t ht hmem => ih.2 t ht (List.mem_cons_of_mem _ hmem)⟩
    obtain ⟨t, ht, hname⟩ := List.mem_map.1 hmem
    exact ih.2 t ht (hname ▸ List.mem_cons_self)

/-- It looks only at tasks that are held. -/
theorem mem_held_of_mem_lookedAt (seen : List String) (stack : List Task) (hheld : ∀ v ∈ stack, v ∈ r.held) :
    ∀ t ∈ lookedAt seen stack, t ∈ r.held := by
  induction seen, stack using lookedAt.induct with
  | case1 seen =>
    rw [lookedAt]
    nofun
  | case2 seen v stack hseen ih =>
    rw [lookedAt, if_pos hseen]
    exact ih fun w hw => hheld w (List.mem_cons_of_mem _ hw)
  | case3 seen v stack hseen ih =>
    rw [lookedAt, if_neg hseen]
    exact List.forall_mem_cons.2 ⟨hheld v List.mem_cons_self, ih (held_look hheld)⟩

/-- A task among those still to come, whose name was not seen, is looked at. -/
theorem mem_lookedAt (hid : r.NamesDistinguish) {t : Task} (ht : t ∈ r.held) (seen : List String)
    (stack : List Task) (hclosed : r.Closed seen stack) (hheld : ∀ v ∈ stack, v ∈ r.held)
    (hnew : t.name ∉ seen) (hmem : ∃ v ∈ stack, t ∈ v.nested) : t ∈ lookedAt seen stack := by
  induction seen, stack using lookedAt.induct with
  | case1 seen =>
    obtain ⟨v, hv, -⟩ := hmem
    cases hv
  | case2 seen v stack hseen ih =>
    have hseen' : v.name ∈ seen := List.contains_iff_mem.1 hseen
    rw [lookedAt, if_pos hseen]
    -- a task of this name was looked at, and it is `v` itself: what is in `v` is still to come
    refine ih (hclosed.skip hseen') (fun w hw => hheld w (List.mem_cons_of_mem _ hw)) hnew ?_
    obtain ⟨w, hw, htw⟩ := hmem
    rcases List.mem_cons.1 hw with rfl | hw
    · exact (hclosed.skip hseen').exists_of_seen hnew w (hheld w List.mem_cons_self) hseen' htw
    · exact ⟨w, hw, htw⟩
  | case3 seen v stack hseen ih =>
    have hv : v ∈ r.held := hheld v List.mem_cons_self
    rw [lookedAt, if_neg hseen, List.mem_cons]
    -- `t` is looked at now, or later: of its name none has been seen
    by_cases hname : t.name = v.name
    · exact .inl (hid t ht v hv hname)
    · have hnew' : t.name ∉ v.name :: seen := fun h => (List.mem_cons.1 h).elim hname hnew
      refine .inr (ih (hclosed.look hid hv) (held_look hheld) hnew' ?_)
      obtain ⟨w, hw, htw⟩ := hmem
      rcases List.mem_cons.1 hw with rfl | hw
      · exact (hclosed.look hid hv).exists_of_seen hnew' w hv List.mem_cons_self htw
      · exact ⟨w, List.mem_append_right _ hw, htw⟩

/-- The search over a registry looks at the tasks it holds. -/
theorem mem_lookedAt_iff (hid : r.NamesDistinguish) {t : Task} : t ∈ lookedAt [] r.tasks.reverse ↔ t ∈ r.held := by
  have hheld : ∀ v ∈ r.tasks.reverse, v ∈ r.held := fun v hv =>
    List.mem_flatMap.2 ⟨v, List.mem_reverse.1 hv, v.self_mem_nested⟩
  refine ⟨mem_held_of_mem_lookedAt [] _ hheld t, fun ht => ?_⟩
  refine mem_lookedAt hid ht [] _ nofun hheld List.not_mem_nil ?_
  obtain ⟨root, hroot, htroot⟩ := List.mem_flatMap.1 ht
  exact ⟨root, List.mem_reverse.2 hroot, htroot⟩

/-! ## What is found -/

theorem mem_missingFrom {t : Task} {name d : String} :
    (name, d) ∈ r.missingFrom t ↔ t.name = name ∧ d ∈ t.deps ∧ d ∉ r.names := by
  simp only [missingFrom, List.mem_map, List.mem_filter, Bool.not_eq_true', ← Bool.not_eq_true, contains_iff,
    Prod.mk.injEq]
  constructor
  · rintro ⟨_, hd, hname, rfl⟩
    exact ⟨hname, hd⟩
  · rintro ⟨hname, hd⟩
    exact ⟨d, hd, hname, rfl⟩

theorem mem_unknownDependencies_iff (hid : r.NamesDistinguish) {name d : String} :
    (name, d) ∈ r.unknownDependencies ↔ ∃ t ∈ r.held, t.name = name ∧ d ∈ t.deps ∧ d ∉ r.names := by
  simp only [unknownDependencies, List.mem_mergeSort, missingAmong_eq, List.mem_flatMap, mem_lookedAt_iff hid,
    mem_missingFrom]

/-- No dependency of a held task that names no registered one is missed. -/
theorem mem_unknownDependencies (hid : r.NamesDistinguish) {t : Task} (ht : t ∈ r.held) {d : String}
    (hd : d ∈ t.deps) (hget : r.get? d = none) : (t.name, d) ∈ r.unknownDependencies := by
  refine (mem_unknownDependencies_iff hid).2 ⟨t, ht, rfl, hd, fun hmem => ?_⟩
  rw [← contains_iff, ← isSome_get?, hget] at hmem
  cases hmem

/-- What is missing from a task is found as often as it is among its dependencies: of its name no other
task is looked at. -/
theorem count_unknownDependencies (hid : r.NamesDistinguish) {t : Task} (ht : t ∈ r.held) {d : String}
    (hd : d ∉ r.names) : r.unknownDependencies.count (t.name, d) = t.deps.count d := by
  have hfree : (!r.contains d) = true := by rwa [Bool.not_eq_true', ← Bool.not_eq_true, contains_iff]
  have hown : (r.missingFrom t).count (t.name, d) = t.deps.count d := by
    rw [missingFrom, List.count_map_of_injective _ _ (Prod.mk_right_injective t.name)]
    exact List.count_filter (p := fun d => !r.contains d) hfree
  obtain ⟨before, after, hsplit⟩ := List.append_of_mem ((mem_lookedAt_iff hid).2 ht)
  have hnames := (names_lookedAt [] r.tasks.reverse).1
  rw [hsplit, List.map_append, List.map_cons, List.nodup_middle, List.nodup_cons, List.mem_append] at hnames
  have hother (others : List Task) (hname : t.name ∉ others.map (·.name)) :
      (others.flatMap r.missingFrom).count (t.name, d) = 0 := by
    refine List.count_eq_zero.2 fun hmem => ?_
    obtain ⟨u, hu, hfound⟩ := List.mem_flatMap.1 hmem
    exact hname (List.mem_map.2 ⟨u, hu, (mem_missingFrom.1 hfound).1⟩)
  rw [unknownDependencies, (List.mergeSort_perm ..).count_eq, missingAmong_eq, hsplit, List.flatMap_append,
    List.flatMap_cons, List.count_append, List.count_append, hown, hother before fun h => hnames.1 (.inl h),
    hother after fun h => hnames.1 (.inr h), Nat.zero_add, Nat.add_zero]

/-! ## Order -/

theorem pairLe_iff {a b : String × String} : pairLe a b = true ↔ toLex a ≤ toLex b := by
  rw [Prod.Lex.toLex_le_toLex, ← not_lt]
  simp only [pairLe, Bool.or_eq_true, Bool.and_eq_true, decide_eq_true_eq, beq_iff_eq, Bool.not_eq_true',
    decide_eq_false_iff_not]

theorem pairwise_unknownDependencies (r : Registry) :
    r.unknownDependencies.Pairwise fun a b => toLex a ≤ toLex b := by
  simp only [← pairLe_iff]
  refine List.pairwise_mergeSort (fun a b c hab hbc => ?_) (fun a b => ?_) _
  · rw [pairLe_iff] at hab hbc ⊢
    exact hab.trans hbc
  · rw [Bool.or_eq_true, pairLe_iff, pairLe_iff]
    exact le_total _ _

/-- In this order the pairs increase strictly exactly if none is repeated. -/
theorem pairwise_lt_unknownDependencies_iff :
    (r.unknownDependencies.Pairwise fun a b => toLex a < toLex b) ↔ r.unknownDependencies.Nodup := by
  refine ⟨fun h => h.imp ?_, fun h => ?_⟩
  · rintro a b hlt rfl
    exact lt_irrefl _ hlt
  · exact ((pairwise_unknownDependencies r).and h).imp fun hab => lt_of_le_of_ne hab.1 hab.2

/-- **Unknown dependencies are found exactly, and as often as they are listed.** Let names tell the held
tasks apart. A pair is found if and only if the first is the name of a held task, registered or nested in
a registered one, and the second one of its dependencies and not registered. The pairs are in order, and each
is repeated as the dependencies of the task repeat it: they increase strictly exactly if no held task lists
an unknown dependency twice. -/
theorem unknownDependencies_exact (r : Registry) (hid : r.NamesDistinguish) :
    (∀ name d, (name, d) ∈ r.unknownDependencies ↔ ∃ t ∈ r.held, t.name = name ∧ d ∈ t.deps ∧ d ∉ r.names) ∧
    (r.unknownDependencies.Pairwise fun a b => toLex a ≤ toLex b) ∧
    (∀ t ∈ r.held, ∀ d, d ∉ r.names → r.unknownDependencies.count (t.name, d) = t.deps.count d) ∧
    ((r.unknownDependencies.Pairwise fun a b => toLex a < toLex b) ↔
      ∀ t ∈ r.held, ∀ d, d ∉ r.names → t.deps.count d ≤ 1) := by
  have hmem {name d : String} : (name, d) ∈ r.unknownDependencies ↔
      ∃ t ∈ r.held, t.name = name ∧ d ∈ t.deps ∧ d ∉ r.names := mem_unknownDependencies_iff hid
  have hcount {t : Task} (ht : t ∈ r.held) {d : String} (hd : d ∉ r.names) := count_unknownDependencies hid ht hd
  refine ⟨fun _ _ => hmem, pairwise_unknownDependencies r, fun t ht d hd => hcount ht hd, ?_⟩
  rw [pairwise_lt_unknownDependencies_iff, List.nodup_iff_count_le_one]
  refine ⟨fun h t ht d hd => hcount ht hd ▸ h _, fun h => ?_⟩
  rintro ⟨name, d⟩
  by_cases hfound : (name, d) ∈ r.unknownDependencies
  · obtain ⟨t, ht, rfl, -, hd⟩ := hmem.1 hfound
    exact hcount ht hd ▸ h t ht d hd
  · rw [List.count_eq_zero.2 hfound]
    exact Nat.zero_le 1

/-- `s` is among the commands of `a` and of `b`, and depends on `a` and on a task that is nowhere, as `b` does. -/
def sharing : Registry :=
  let s : Task := { Task.empty "s" "/" with deps := ["ghost", "a"] }
  ⟨[{ Task.empty "a" "/" with cmds := [.task s] }, { Task.empty "b" "/" with deps := ["gone"], cmds := [.task s] }], []⟩

theorem sharing_strict :
    sharing.NamesDistinguish ∧ ("s", "ghost") ∈ sharing.unknownDependencies ∧
      sharing.unknownDependencies.Pairwise fun a b => toLex a < toLex b := by
  have hid : sharing.NamesDistinguish := by simp [NamesDistinguish, held, sharing, Task.nested, Task.nestedIn, Task.empty]
  have honce : ∀ t ∈ sharing.held, t.deps.Nodup := by simp [held, sharing, Task.nested, Task.nestedIn, Task.empty]
  obtain ⟨hmem, -, -, hstrict⟩ := unknownDependencies_exact sharing hid
  refine ⟨hid, (hmem _ _).2 ?_, hstrict.2 fun t ht d _ => List.nodup_iff_count_le_one.1 (honce t ht) d⟩
  simp [held, sharing, Task.nested, Task.nestedIn, Task.empty, names]

/-- `t` lists a dependency twice that is nowhere. -/
def repeating : Registry := ⟨[{ Task.empty "t" "/" with deps := ["x", "x"] }], []⟩

/-- It is found twice. -/
theorem repeating_found_twice :
    repeating.NamesDistinguish ∧ repeating.unknownDependencies = [("t", "x"), ("t", "x")] ∧
      ¬ repeating.unknownDependencies.Pairwise fun a b => toLex a < toLex b := by
  have hmissing : repeating.missingAmong [] repeating.tasks.reverse = [("t", "x"), ("t", "x")] := by
    simp [repeating, missingAmong, missingFrom, contains, index?, Task.empty, Task.subTasks, Task.embedded]
  have hfound : repeating.unknownDependencies = [("t", "x"), ("t", "x")] := by
    rw [unknownDependencies, hmissing]
    exact List.mergeSort_of_pairwise (by decide)
  refine ⟨?_, hfound, ?_⟩
  · simp [NamesDistinguish, held, repeating, Task.nested, Task.nestedIn, Task.empty]
  · simp [hfound]

end Taskwork.Registry
