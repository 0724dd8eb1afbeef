/-
The state of a run and its calls. At every point of a run the tasks marked as running are those in
progress, each once, and the tasks marked as done are those on the report: every step keeps this, so it
is true wherever the trace of the run leads. When a run ends well no task is in progress, and so none is
marked as running.
-/
import Taskwork.Proofs.Execution.Levels
import Taskwork.Proofs.Execution.Trace

namespace Taskwork.Execution

/-! ## Marks -/

namespace Progress

/-- The names that have a mark. -/
def marked (p : Progress) : List String := p.marks.map (·.1)

theorem marked_setMark {p : Progress} (hp : p.marked.Nodup) (name : String) (m : Mark) :
    (p.setMark name m).marked.Nodup := by
  show (name :: (p.marks.filter fun row => row.1 != name).map (·.1)).Nodup
  refine List.nodup_cons.2 ⟨fun hmem => ?_, hp.sublist (List.filter_sublist.map _)⟩
  obtain ⟨row, hrow, hname⟩ := List.mem_map.1 hmem
  exact absurd hname (bne_iff_ne.1 (List.mem_filter.1 hrow).2)

/-- The mark of a name is the one in its only row. -/
theorem mark?_eq_some_iff {p : Progress} (hp : p.marked.Nodup) {n : String} {m : Mark} :
    p.mark? n = some m ↔ (n, m) ∈ p.marks := by
  unfold mark?
  rw [Option.map_eq_some_iff]
  constructor
  · rintro ⟨⟨name, m⟩, hfind, rfl⟩
    have hname := List.find?_some hfind
    obtain rfl : name = n := beq_iff_eq.1 hname
    exact List.mem_of_find?_eq_some hfind
  · intro hmem
    refine ⟨(n, m), ?_, rfl⟩
    cases hfind : p.marks.find? fun row => row.1 == n with
    | none => exact absurd (beq_self_eq_true n) (List.find?_eq_none.1 hfind _ hmem)
    | some row =>
      have hname := List.find?_some hfind
      rw [List.inj_on_of_nodup_map hp (List.mem_of_find?_eq_some hfind) hmem (beq_iff_eq.1 hname)]

theorem mem_running_iff {p : Progress} (hp : p.marked.Nodup) {n : String} :
    n ∈ p.running ↔ p.mark? n = some .running := by
  rw [mark?_eq_some_iff hp, running, List.mem_map]
  constructor
  · rintro ⟨⟨name, m⟩, hmem, rfl⟩
    obtain ⟨hmem, hm⟩ := List.mem_filter.1 hmem
    obtain rfl : m = .running := of_decide_eq_true hm
    exact hmem
  · exact fun hmem => ⟨(n, .running), List.mem_filter.2 ⟨hmem, rfl⟩, rfl⟩

/-- The names of the tasks on the report. -/
def reported (p : Progress) : List String := p.report.outcomes.map (·.1)

end Progress

/-! ## Points -/

/-- The names of the tasks in progress. -/
def Point.names (pt : Point) : List String := pt.calls.map (·.name)

/-- The marks of a point agree with its calls and with the report. -/
structure Point.Consistent (pt : Point) : Prop where
  marked : pt.world.progress.marked.Nodup
  once : pt.names.Nodup
  running : Busy pt.world.progress pt.names
  done : ∀ n, pt.world.progress.mark? n = some .done ↔ n ∈ pt.world.progress.reported

namespace Point.Consistent

variable {pt : Point}

/-- Nothing is in progress at the beginning. -/
theorem initial (host : Host) : Consistent ⟨[], ⟨.initial, host⟩⟩ where
  marked := List.nodup_nil
  once := List.nodup_nil
  running _ := ⟨nofun, nofun⟩
  done _ := ⟨nofun, nofun⟩

theorem running_perm (h : pt.Consistent) : pt.world.progress.running.Perm pt.names := by
  have hnodup : pt.world.progress.running.Nodup := h.marked.sublist (List.filter_sublist.map _)
  refine (List.perm_ext_iff_of_nodup hnodup h.once).2 fun n => ?_
  rw [Progress.mem_running_iff h.marked, h.running n]

theorem disjoint (h : pt.Consistent) : pt.world.progress.reported.Disjoint pt.world.progress.running := by
  intro n hdone hrunning
  rw [Progress.mem_running_iff h.marked, (h.done n).2 hdone] at hrunning
  cases hrunning

/-- A step of a run keeps the marks in agreement. -/
theorem step {h : Shell.Handlers} {s : Settings} {r : Registry} {root : Task} {q : Point} {d : Deed}
    (hpt : pt.Consistent) (hstep : Step h s r root pt d q) : q.Consistent := by
  cases hstep with
  | @start calls w t _ hfree =>
    have hnew : t.name ∉ Point.names ⟨calls, w⟩ := fun hmem => by
      rw [(hpt.running t.name).2 hmem] at hfree
      cases hfree
    refine ⟨Progress.marked_setMark hpt.marked _ _, List.nodup_cons.2 ⟨hnew, hpt.once⟩,
      hpt.running.start t.name, fun n => ?_⟩
    rw [Progress.mark?_start]
    split
    · rename_i hn
      -- a task that is started is not on the report
      have hnot : n ∉ w.progress.reported := fun hmem => by
        rw [hn, ← hpt.done, hfree] at hmem
        cases hmem
      exact ⟨nofun, fun hmem => absurd hmem hnot⟩
    · exact hpt.done n
  | @finish calls w t outcome =>
    obtain ⟨hnew, honce⟩ := List.nodup_cons.1 hpt.once
    refine ⟨Progress.marked_setMark hpt.marked _ _, honce, hpt.running.finish hnew outcome, fun n => ?_⟩
    have hreported : (w.progress.finish t.name outcome).reported = w.progress.reported ++ [t.name] :=
      List.map_append
    rw [Progress.mark?_finish, hreported, List.mem_append, List.mem_singleton, ← hpt.done n]
    by_cases hn : n = t.name <;> simp [hn]
  | pass => exact hpt
  | ready => exact hpt
  | tell => exact ⟨hpt.marked, hpt.once, hpt.running, hpt.done⟩
  | execute => exact ⟨hpt.marked, hpt.once, hpt.running, hpt.done⟩
  | count => exact ⟨hpt.marked, hpt.once, hpt.running, hpt.done⟩

end Point.Consistent

/-! ## Runs -/

/-- **The marks of a run are its calls.** At every point of a run, from the beginning on, the tasks marked
as running are exactly those in progress, none of them twice, and the tasks marked as done are exactly
those on the report, which are others. These points leave nothing out: by single steps they lead to the
world in which the run ends, and if it ends well no task is marked as running then. -/
theorem marks_follow_calls (h : Shell.Handlers) (s : Settings) (r : Registry) (name : String) (host : Host) :
    ∃ trace, Traced.run h s r name host = (run h s r name host, trace) ∧
      (∀ pt ∈ ⟨[], ⟨.initial, host⟩⟩ :: trace.map (·.2),
        pt.world.progress.running.Perm (pt.calls.map (·.name)) ∧ (pt.calls.map (·.name)).Nodup ∧
        (∀ n, pt.world.progress.mark? n = some .done ↔ n ∈ pt.world.progress.report.outcomes.map (·.1)) ∧
        (pt.world.progress.report.outcomes.map (·.1)).Disjoint pt.world.progress.running) ∧
      ∀ t, r.get? name = some t → ∃ last,
        Path h.withTools s r t ⟨[], ⟨.initial, host⟩⟩ trace last ∧
        last.world = (taskAt h.withTools s r (maxLevels r) s.force t ⟨.initial, host⟩).2 ∧
        ∀ report, (run h s r name host).2 = .ok report → last.world.progress.running = [] := by
  have hstart : Point.Consistent ⟨[], ⟨.initial, host⟩⟩ := .initial host
  refine ⟨_, Traced.run_eq h s r name host, ?_, ?_⟩
  · have hall : ∀ e ∈ (Traced.run h s r name host).2, e.2.Consistent := by
      cases hget : r.get? name with
      | none =>
        rw [Traced.run_of_get?_none hget]
        nofun
      | some t =>
        obtain ⟨q, hpath, -⟩ := path_run (h := h) (s := s) hget host
        exact (hpath.invariant (fun _ _ _ => Point.Consistent.step) hstart).2
    refine List.forall_mem_cons.2 ⟨?_, List.forall_mem_map.2 fun e he => ?_⟩
    · exact ⟨hstart.running_perm, hstart.once, hstart.done, hstart.disjoint⟩
    · exact ⟨(hall e he).running_perm, (hall e he).once, (hall e he).done, (hall e he).disjoint⟩
  · intro t hget
    obtain ⟨q, hpath, hw, -, hend⟩ := path_run (h := h) (s := s) hget host
    refine ⟨q, hpath, hw, fun report hok => ?_⟩
    rw [hok] at hend
    have hperm := (hpath.invariant (fun _ _ _ => Point.Consistent.step) hstart).1.running_perm
    rw [Point.names, hend.1.calls] at hperm
    exact List.perm_nil.1 hperm

end Taskwork.Execution
