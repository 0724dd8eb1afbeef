/-
How the progress of a run goes on. A `Passage` leads from one progress to another by what is
recorded between them: tasks that had not been started are started, their commands are begun once,
and they end after their dependencies. Passages follow one another, and what a run does for one task
starts, begins or ends as a passage.
-/
import Taskwork.Proofs.Execution.Record
import Mathlib.Data.List.Nodup

namespace Taskwork.Execution

/-! ## Marks -/

namespace Progress

theorem mark?_setMark (p : Progress) (name : String) (m : Mark) (n : String) :
    (p.setMark name m).mark? n = if n = name then some m else p.mark? n := by
  unfold mark? setMark
  rw [List.find?_cons]
  by_cases h : n = name
  · subst h
    simp
  · have hne : (name == n) = false := beq_false_of_ne (Ne.symm h)
    simp only [hne, if_neg h]
    rw [List.find?_filter]
    congr 2
    funext row
    by_cases hrow : row.1 = n
    · simp [hrow, h]
    · simp [hrow]

theorem mark?_start (p : Progress) (name n : String) :
    (p.start name).mark? n = if n = name then some .running else p.mark? n :=
  mark?_setMark p name .running n

theorem mark?_finish (p : Progress) (name : String) (outcome : Outcome) (n : String) :
    (p.finish name outcome).mark? n = if n = name then some .done else p.mark? n :=
  mark?_setMark p name .done n

/-- The same tasks are in progress or done, and ended in the same way. -/
def Alike (p q : Progress) : Prop := q.marks = p.marks ∧ q.report.outcomes = p.report.outcomes

theorem Alike.refl (p : Progress) : Alike p p := ⟨rfl, rfl⟩

theorem Alike.trans {p q r : Progress} (h : Alike p q) (h' : Alike q r) : Alike p r :=
  ⟨h'.1.trans h.1, h'.2.trans h.2⟩

theorem Alike.mark? {p q : Progress} (h : Alike p q) (n : String) : q.mark? n = p.mark? n := by
  unfold Progress.mark?
  rw [h.1]

end Progress

/-! ## Passages -/

@[simp] theorem begun_started (t : Task) : begun [.started t] = [] := rfl

@[simp] theorem begun_begun (t : Task) : begun [.begun t] = [t] := rfl

@[simp] theorem begun_ended (t : Task) (outcome : Outcome) : begun [.ended t outcome] = [] := rfl

@[simp] theorem ended_started (t : Task) : ended [.started t] = [] := rfl

@[simp] theorem ended_begun (t : Task) : ended [.begun t] = [] := rfl

@[simp] theorem ended_ended (t : Task) (outcome : Outcome) :
    ended [.ended t outcome] = [(t, outcome)] := rfl

theorem begun_append (es fs : List Event) : begun (es ++ fs) = begun es ++ begun fs :=
  List.filterMap_append

theorem ended_append (es fs : List Event) : ended (es ++ fs) = ended es ++ ended fs :=
  List.filterMap_append

/-- The names of the tasks whose commands were begun. -/
def begunNames (es : List Event) : List String := (begun es).map (·.name)

/-- The names of the tasks that ended. -/
def endedNames (es : List Event) : List String := (ended es).map (·.1.name)

@[simp] theorem begunNames_snoc_ended (es : List Event) (t : Task) (outcome : Outcome) :
    begunNames (es ++ [.ended t outcome]) = begunNames es := by
  rw [begunNames, begun_append, begun_ended, List.append_nil]; rfl

@[simp] theorem endedNames_snoc_begun (es : List Event) (t : Task) :
    endedNames (es ++ [.begun t]) = endedNames es := by
  rw [endedNames, ended_append, ended_begun, List.append_nil]; rfl

theorem begunNames_append (es fs : List Event) : begunNames (es ++ fs) = begunNames es ++ begunNames fs := by
  rw [begunNames, begun_append, List.map_append]; rfl

theorem endedNames_append (es fs : List Event) : endedNames (es ++ fs) = endedNames es ++ endedNames fs := by
  rw [endedNames, ended_append, List.map_append]; rfl

theorem mem_begunNames {n : String} {es : List Event} (h : n ∈ begunNames es) : ∃ e ∈ es, e.task.name = n := by
  obtain ⟨t, ht, rfl⟩ := List.mem_map.mp h
  obtain ⟨e, he, hte⟩ := List.mem_filterMap.mp ht
  refine ⟨e, he, ?_⟩
  cases e <;> cases hte
  rfl

theorem mem_endedNames {n : String} {es : List Event} (h : n ∈ endedNames es) : ∃ e ∈ es, e.task.name = n := by
  obtain ⟨⟨t, outcome⟩, ht, rfl⟩ := List.mem_map.mp h
  obtain ⟨e, he, hte⟩ := List.mem_filterMap.mp ht
  refine ⟨e, he, ?_⟩
  cases e <;> cases hte
  rfl

/-- Where an entry of two lists one after the other stands. -/
theorem entry_of_append {α : Type} {l m before after : List α} {x : α}
    (h : l ++ m = before ++ x :: after) :
    (∃ between, l = before ++ x :: between) ∨ ∃ between, before = l ++ between ∧ m = between ++ x :: after := by
  rcases List.append_eq_append_iff.mp h with ⟨between, hbefore, hm⟩ | ⟨between, hl, hafter⟩
  · exact .inr ⟨between, hbefore, hm⟩
  · cases between with
    | nil => exact .inr ⟨[], by simpa using hl.symm, by simpa using hafter.symm⟩
    | cons y between =>
      obtain ⟨rfl, -⟩ := List.cons.inj hafter
      exact .inl ⟨between, hl⟩

/-- How the progress may go on from `p` to `q` while `es` happens. -/
structure Passage (p : Progress) (es : List Event) (q : Progress) : Prop where
  /-- What was in progress stays so, and what was done as well. -/
  kept : ∀ n, p.mark? n ≠ none → q.mark? n = p.mark? n
  /-- Something befalls only the tasks that were not started. -/
  fresh : ∀ e ∈ es, p.mark? e.task.name = none
  marked : ∀ e ∈ es, q.mark? e.task.name ≠ none
  done : ∀ n, q.mark? n = some .done ↔ p.mark? n = some .done ∨ n ∈ endedNames es
  outcomes : q.report.outcomes = p.report.outcomes ++ (ended es).map fun row => (row.1.name, row.2)
  begunOnce : (begunNames es).Nodup
  endedOnce : (endedNames es).Nodup
  ordered : ∀ before t outcome after, ended es = before ++ (t, outcome) :: after →
    ∀ d ∈ t.deps, p.mark? d = some .done ∨ d ∈ before.map (·.1.name)

namespace Passage

variable {p q r : Progress} {es fs : List Event} {t : Task}

theorem ofAlike (h : Progress.Alike p q) : Passage p [] q where
  kept n _ := h.mark? n
  fresh _ he := absurd he List.not_mem_nil
  marked _ he := absurd he List.not_mem_nil
  done n := by simp [h.mark?, endedNames, ended]
  outcomes := by simp [h.2, ended]
  begunOnce := List.nodup_nil
  endedOnce := List.nodup_nil
  ordered before t outcome after he := by simp [ended] at he

theorem unmarked (h : Passage p es q) {n : String} (hn : q.mark? n = none) : p.mark? n = none := by
  by_contra hp
  exact hp ((h.kept n hp).symm.trans hn)

theorem fresh_snoc (h : Passage p es q) {e : Event} (hp : p.mark? e.task.name = none) :
    ∀ e' ∈ es ++ [e], p.mark? e'.task.name = none := by
  intro e' he
  rcases List.mem_append.mp he with he | he
  · exact h.fresh e' he
  · obtain rfl := List.mem_singleton.mp he
    exact hp

/-- What befalls in a passage and in the next one befalls different tasks. -/
theorem nodup_append (h : Passage p es q) (h' : Passage q fs r) {ms ns : List String}
    (hms : ∀ n ∈ ms, ∃ e ∈ es, e.task.name = n) (hns : ∀ n ∈ ns, ∃ e ∈ fs, e.task.name = n)
    (hm : ms.Nodup) (hn : ns.Nodup) : (ms ++ ns).Nodup := by
  rw [List.nodup_append]
  refine ⟨hm, hn, ?_⟩
  rintro a ha b hb rfl
  obtain ⟨e, he, rfl⟩ := hms a ha
  obtain ⟨f, hf, hfe⟩ := hns _ hb
  exact h.marked e he (hfe ▸ h'.fresh f hf)

theorem trans (h : Passage p es q) (h' : Passage q fs r) : Passage p (es ++ fs) r where
  kept n hn := by
    have hq := h.kept n hn
    rw [h'.kept n (hq ▸ hn), hq]
  fresh e he := by
    rcases List.mem_append.mp he with he | he
    · exact h.fresh e he
    · exact h.unmarked (h'.fresh e he)
  marked e he := by
    rcases List.mem_append.mp he with he | he
    · have hq := h.marked e he
      rwa [h'.kept _ hq]
    · exact h'.marked e he
  done n := by rw [h'.done, h.done, endedNames_append, List.mem_append, or_assoc]
  outcomes := by
    rw [h'.outcomes, h.outcomes, ended_append, List.map_append, List.append_assoc]
  begunOnce := by
    rw [begunNames_append]
    exact h.nodup_append h' (fun _ => mem_begunNames) (fun _ => mem_begunNames) h.begunOnce h'.begunOnce
  endedOnce := by
    rw [endedNames_append]
    exact h.nodup_append h' (fun _ => mem_endedNames) (fun _ => mem_endedNames) h.endedOnce h'.endedOnce
  ordered before t outcome after hsplit d hd := by
    rw [ended_append] at hsplit
    rcases entry_of_append hsplit with ⟨between, hes⟩ | ⟨between, rfl, hfs⟩
    · exact h.ordered before t outcome between hes d hd
    · rw [List.map_append, List.mem_append]
      -- what is done at `q` was done at `p` or ended on the way
      rcases h'.ordered between t outcome after hfs d hd with hdone | hdone
      · rcases (h.done d).mp hdone with hp | hes
        · exact .inl hp
        · exact .inr (.inl hes)
      · exact .inr (.inr hdone)

/-! ## Steps of one task -/

theorem start (hp : p.mark? t.name = none) : Passage p [.started t] (p.start t.name) where
  kept n hn := by
    rw [Progress.mark?_start, if_neg]
    rintro rfl
    exact hn hp
  fresh e he := by
    obtain rfl := List.mem_singleton.mp he
    exact hp
  marked e he := by
    obtain rfl := List.mem_singleton.mp he
    simp [Progress.mark?_start, Event.task]
  done n := by
    rw [Progress.mark?_start]
    by_cases hn : n = t.name
    · subst hn
      simp [hp, endedNames]
    · simp [hn, endedNames]
  outcomes := by simp [Progress.start, Progress.setMark]
  begunOnce := List.nodup_nil
  endedOnce := List.nodup_nil
  ordered before t outcome after he := by simp at he

/-- The commands of a task that is in progress are begun, for the first time. -/
theorem begin (h : Passage p es q) (hp : p.mark? t.name = none) (hq : q.mark? t.name = some .running)
    (hes : t.name ∉ begunNames es) : Passage p (es ++ [.begun t]) q where
  kept := h.kept
  fresh := h.fresh_snoc hp
  marked e he := by
    rcases List.mem_append.mp he with he | he
    · exact h.marked e he
    · obtain rfl := List.mem_singleton.mp he
      exact hq ▸ Option.some_ne_none _
  done n := by simpa using h.done n
  outcomes := by simpa [ended_append] using h.outcomes
  begunOnce := by
    rw [begunNames_append, List.nodup_append]
    refine ⟨h.begunOnce, List.nodup_singleton _, ?_⟩
    rintro a ha b hb rfl
    obtain rfl : a = t.name := by simpa [begunNames] using hb
    exact hes ha
  endedOnce := by simpa using h.endedOnce
  ordered := by simpa [ended_append] using h.ordered

/-- A task in progress ends, after its dependencies. -/
theorem finish (h : Passage p es q) (hp : p.mark? t.name = none) (hq : q.mark? t.name = some .running)
    (hdeps : ∀ d ∈ t.deps, q.mark? d = some .done) (outcome : Outcome) :
    Passage p (es ++ [.ended t outcome]) (q.finish t.name outcome) where
  kept n hn := by
    rw [Progress.mark?_finish, if_neg]
    · exact h.kept n hn
    · rintro rfl
      exact hn hp
  fresh := h.fresh_snoc hp
  marked e he := by
    rw [Progress.mark?_finish]
    split
    · exact Option.some_ne_none _
    · rename_i hne
      rcases List.mem_append.mp he with he | he
      · exact h.marked e he
      · obtain rfl := List.mem_singleton.mp he
        exact absurd rfl hne
  done n := by
    rw [Progress.mark?_finish, endedNames_append, List.mem_append]
    by_cases hn : n = t.name
    · subst hn
      simp [endedNames]
    · rw [if_neg hn, h.done]
      simp [endedNames, hn]
  outcomes := by
    rw [ended_append, List.map_append, ← List.append_assoc, ← h.outcomes]
    simp [Progress.finish, Progress.setMark]
  begunOnce := by simpa using h.begunOnce
  endedOnce := by
    rw [endedNames_append, List.nodup_append]
    refine ⟨h.endedOnce, List.nodup_singleton _, ?_⟩
    rintro a ha b hb rfl
    obtain rfl : a = t.name := by simpa [endedNames] using hb
    -- had it ended before, it would be done and not in progress
    have hdone := (h.done t.name).mpr (.inr ha)
    rw [hq] at hdone
    cases hdone
  ordered before t' outcome' after hsplit d hd := by
    rw [ended_append, ended_ended] at hsplit
    rcases entry_of_append hsplit with ⟨between, hes⟩ | ⟨between, rfl, hlast⟩
    · exact h.ordered before t' outcome' between hes d hd
    · obtain ⟨rfl, hlast⟩ | ⟨_, _, hlast⟩ := List.cons_eq_append_iff.mp hlast
      · obtain ⟨⟨rfl, -⟩, -⟩ : (t = t' ∧ outcome = outcome') ∧ after = [] := by simpa using hlast
        rw [List.append_nil]
        exact (h.done d).mp (hdeps d hd)
      · simp at hlast

end Passage

end Taskwork.Execution
