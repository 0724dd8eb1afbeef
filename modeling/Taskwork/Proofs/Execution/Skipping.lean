/-
Which tasks are skipped. A skip list stands for the paths of its patterns, and the task is skipped if there
are any and something is at each of them. A pattern with wildcards that nothing matches stands for no path
and is passed over, so a skip list counts the patterns that something matches: of a task that is skipped each
pattern is satisfied, or it is passed over. In a run the files are asked just before a task ends as skipped
(`Warranted`), which a walk over the traced run shows of every task that does.
-/
import Mathlib
import Taskwork.Program.Sample
import Taskwork.Proofs.Execution.Staleness
import Taskwork.Proofs.Execution.Trace
import Taskwork.Proofs.Glob.Literal

namespace Taskwork

namespace Execution

variable {fs : Files} {t : Task} {pattern : String}

/-! ## The decision -/

/-- There is something at one of the paths that the pattern stands for. -/
def Satisfied (fs : Files) (t : Task) (pattern : String) : Prop :=
  ∃ paths, Glob.pathsOf fs t.base pattern = .ok paths ∧ ∃ path ∈ paths, fs.exists? path = true

/-- The pattern stands for no path. -/
def Unmatched (fs : Files) (t : Task) (pattern : String) : Prop := Glob.pathsOf fs t.base pattern = .ok []

/-- Whatever paths the pattern stands for, something is at each of them. -/
def Fulfilled (fs : Files) (t : Task) (pattern : String) : Prop :=
  ∃ paths, Glob.pathsOf fs t.base pattern = .ok paths ∧ ∀ path ∈ paths, fs.exists? path = true

theorem Unmatched.literal?_eq_none (h : Unmatched fs t pattern) : Glob.literal? pattern = none := by
  cases hliteral : Glob.literal? pattern with
  | none => rfl
  | some text =>
    unfold Unmatched at h
    rw [Glob.pathsOf_of_literal hliteral] at h
    cases h

theorem Satisfied.not_unmatched (h : Satisfied fs t pattern) : ¬ Unmatched fs t pattern := by
  rintro hnone
  obtain ⟨paths, hpaths, path, hpath, -⟩ := h
  obtain rfl : paths = [] := Except.ok.inj (hpaths.symm.trans hnone)
  cases hpath

/-- Something is at the paths of a pattern, or there are none. -/
theorem Fulfilled.satisfied_or_unmatched (h : Fulfilled fs t pattern) :
    Satisfied fs t pattern ∨ Unmatched fs t pattern := by
  obtain ⟨paths, hpaths, hall⟩ := h
  cases paths with
  | nil => exact .inr hpaths
  | cons path rest => exact .inl ⟨path :: rest, hpaths, path, by simp, hall path (by simp)⟩

theorem allExist_eq_ok_true_iff {task : String} {paths : List String} :
    allExist fs task paths = .ok true ↔ ∀ path ∈ paths, fs.exists? path = true := by
  induction paths with
  | nil => simp [allExist]
  | cons path rest ih =>
    rw [List.forall_mem_cons, ← ih, allExist, Files.exists?]
    rcases fs.stat path with f | entry
    · cases f <;> simp [Except.isOk, Except.toBool]
    · simp [Except.isOk, Except.toBool]

theorem isSkipped_eq_ok_true_iff :
    isSkipped fs t = .ok true ↔ ∃ paths, Glob.pathsOfAll fs t.base t.skipIfExists = .ok paths ∧ paths ≠ [] ∧
      ∀ path ∈ paths, fs.exists? path = true := by
  constructor
  · intro h
    obtain ⟨paths, hpaths, h⟩ := exists_of_bind_ok h
    by_cases hnone : paths = []
    · subst hnone
      cases h
    · rw [if_neg (by simpa using hnone)] at h
      exact ⟨paths, pathsOf_eq_ok_iff.1 hpaths, hnone, allExist_eq_ok_true_iff.1 h⟩
  · rintro ⟨paths, hpaths, hnone, hall⟩
    unfold isSkipped
    rw [pathsOf_eq_ok_iff.2 hpaths]
    show (if paths.isEmpty then _ else _) = _
    rw [if_neg (by simpa using hnone)]
    exact allExist_eq_ok_true_iff.2 hall

/-- A task is skipped if its patterns are fulfilled, and one of them satisfied. -/
theorem isSkipped_iff :
    isSkipped fs t = .ok true ↔
      (∀ pattern ∈ t.skipIfExists, Fulfilled fs t pattern) ∧ ∃ pattern ∈ t.skipIfExists, Satisfied fs t pattern := by
  rw [isSkipped_eq_ok_true_iff]
  constructor
  · rintro ⟨paths, hpaths, hne, hall⟩
    obtain ⟨hfound, hmem⟩ := Glob.pathsOfAll_ok hpaths
    constructor
    · intro pattern hpattern
      obtain ⟨found, hok⟩ := hfound pattern hpattern
      exact ⟨found, hok, fun path hpath => hall path ((hmem path).2 ⟨pattern, hpattern, found, hok, hpath⟩)⟩
    · obtain ⟨path, hpath⟩ := List.exists_mem_of_ne_nil paths hne
      obtain ⟨pattern, hpattern, found, hok, hin⟩ := (hmem path).1 hpath
      exact ⟨pattern, hpattern, found, hok, path, hin, hall path hpath⟩
  · rintro ⟨hfulfilled, pattern, hpattern, found, hok, path, hin, -⟩
    obtain ⟨paths, hpaths⟩ := Glob.exists_pathsOfAll fun pattern hpattern =>
      (hfulfilled pattern hpattern).imp fun _ h => h.1
    obtain ⟨-, hmem⟩ := Glob.pathsOfAll_ok hpaths
    refine ⟨paths, hpaths, List.ne_nil_of_mem ((hmem path).2 ⟨pattern, hpattern, found, hok, hin⟩), ?_⟩
    intro path hpath
    obtain ⟨pattern, hpattern, found, hok, hin⟩ := (hmem path).1 hpath
    obtain ⟨found', hok', hall⟩ := hfulfilled pattern hpattern
    obtain rfl : found' = found := Except.ok.inj (hok'.symm.trans hok)
    exact hall path hin

/-- If a task is skipped, its whole skip list is satisfied unless something in it is passed over. -/
theorem forall_satisfied_iff (h : isSkipped fs t = .ok true) :
    (∀ pattern ∈ t.skipIfExists, Satisfied fs t pattern) ↔ ∀ pattern ∈ t.skipIfExists, ¬ Unmatched fs t pattern := by
  constructor
  · intro hall pattern hpattern
    exact (hall pattern hpattern).not_unmatched
  · intro hall pattern hpattern
    have hfulfilled := (isSkipped_iff.1 h).1 pattern hpattern
    exact hfulfilled.satisfied_or_unmatched.resolve_right (hall pattern hpattern)

/-! ## Tasks that end as skipped -/

/-- If a task ends as skipped, its files say so. -/
def Warranted (e : Deed × Point) : Prop :=
  ∀ t, e.1 = .finish t .skipped → isSkipped e.2.world.host.files t = .ok true

/-- From a world with `P` on, what it adds to the trace is warranted, and if it ends well `Q` is true of its result
and the world. -/
def Warrants {α : Type} (P : World → Prop) (x : Traced α) (Q : α → World → Prop) : Prop :=
  ∀ w es, P w → ∃ more, (x (w, es)).2.2 = es ++ more ∧ (∀ e ∈ more, Warranted e) ∧
    ∀ a, (x (w, es)).1 = .ok a → Q a (x (w, es)).2.1

namespace Warrants

variable {α β : Type} {P : World → Prop} {x : Traced α} {Q : α → World → Prop}

theorem pure {a : α} (hQ : ∀ w, P w → Q a w) : Warrants P (Pure.pure a : Traced α) Q := by
  intro w es hw
  refine ⟨[], (List.append_nil es).symm, nofun, ?_⟩
  rintro b ⟨⟩
  exact hQ w hw

theorem throw (f : Fault) : Warrants P (MonadExcept.throw f : Traced α) Q := by
  intro w es _
  exact ⟨[], (List.append_nil es).symm, nofun, nofun⟩

theorem silently {act : Act α} (hQ : ∀ w a, P w → (act w).1 = .ok a → Q a (act w).2) :
    Warrants P (Traced.silently act) Q := by
  intro w es hw
  exact ⟨[], (List.append_nil es).symm, nofun, fun a => hQ w a hw⟩

theorem perform {calls : List Task} {d : Deed} {act : Act α}
    (hd : ∀ w, P w → Warranted (d, ⟨calls, (act w).2⟩)) (hQ : ∀ w a, P w → (act w).1 = .ok a → Q a (act w).2) :
    Warrants P (Traced.perform calls d act) Q := by
  intro w es hw
  refine ⟨[(d, ⟨calls, (act w).2⟩)], rfl, ?_, fun a => hQ w a hw⟩
  rw [List.forall_mem_singleton]
  exact hd w hw

theorem bind {R : β → World → Prop} {go : α → Traced β} (hx : Warrants P x Q) (hgo : ∀ a, Warrants (Q a) (go a) R) :
    Warrants P (x >>= go) R := by
  intro w es hw
  obtain ⟨more, htrace, hall, hQ⟩ := hx w es hw
  rw [Stateful.bind_apply]
  rcases hend : x (w, es) with ⟨f | a, w', es'⟩ <;> rw [hend] at htrace hQ
  · exact ⟨more, htrace, hall, nofun⟩
  · obtain rfl : es' = es ++ more := htrace
    obtain ⟨more', htrace', hall', hR⟩ := hgo a w' (es ++ more) (hQ a rfl)
    refine ⟨more ++ more', by simp [htrace'], ?_, hR⟩
    rintro e he
    rcases List.mem_append.1 he with he | he
    · exact hall e he
    · exact hall' e he

theorem adapt {g : Fault → Fault} (hx : Warrants P x Q) : Warrants P (ExceptT.adapt g x : Traced α) Q := by
  intro w es hw
  obtain ⟨more, htrace, hall, hQ⟩ := hx w es hw
  rw [Stateful.adapt_apply]
  refine ⟨more, htrace, hall, fun a ha => hQ a ?_⟩
  rcases hend : (x (w, es)).1 with f | b <;> rw [hend] at ha <;> cases ha
  rfl

/-- Less is asked of the world before, and of what comes of it. -/
theorem mono {P' : World → Prop} {Q' : α → World → Prop} (hx : Warrants P x Q) (hP : ∀ w, P' w → P w)
    (hQ : ∀ a w, Q a w → Q' a w) : Warrants P' x Q' := by
  intro w es hw
  obtain ⟨more, htrace, hall, hend⟩ := hx w es (hP w hw)
  exact ⟨more, htrace, hall, fun a ha => hQ a _ (hend a ha)⟩

end Warrants

/-- It adds what is warranted, whatever the world is. -/
def Sound {α : Type} (x : Traced α) : Prop := Warrants (fun _ => True) x fun _ _ => True

namespace Sound

variable {α β : Type} {x : Traced α}

theorem pure (a : α) : Sound (Pure.pure a : Traced α) := Warrants.pure fun _ _ => trivial

theorem silently (act : Act α) : Sound (Traced.silently act) :=
  Warrants.silently fun _ _ _ _ => trivial

/-- A step by which no task ends as skipped. -/
theorem perform {calls : List Task} {d : Deed} {act : Act α} (hd : ∀ t, d ≠ .finish t .skipped) :
    Sound (Traced.perform calls d act) :=
  Warrants.perform (fun _ _ t ht => absurd ht (hd t)) fun _ _ _ _ => trivial

theorem bind {go : α → Traced β} (hx : Sound x) (hgo : ∀ a, Sound (go a)) : Sound (x >>= go) := Warrants.bind hx hgo

end Sound

variable {h : Shell.Handlers} {s : Settings} {r : Registry} {callers : List Task}

theorem sound_statements : ∀ (script : Shell.Script) (state : Shell.State),
    Sound (Traced.statements h s callers t script state)
  | [], state => Sound.pure state
  | statement :: rest, state => by
    unfold Traced.statements
    refine (Sound.perform (by simp)).bind fun _ => ?_
    split
    · exact sound_statements rest state
    · refine (Sound.silently _).bind fun w => ?_
      rcases Shell.Run.statement h statement ⟨state, [], w.host⟩ with ⟨stop | ⟨⟩, sw⟩
      · exact (Sound.perform (by simp)).bind fun _ => Warrants.throw _
      · refine (Sound.perform (by simp)).bind fun _ => (Sound.perform (by simp)).bind fun _ => ?_
        split
        · exact Sound.pure sw.state
        · exact sound_statements rest sw.state

theorem sound_commands {run : Task → Traced Unit} (hrun : ∀ u, Sound (run u)) :
    ∀ (cmds : List TaskCommand) (index : Nat) (state : Shell.State),
      Sound (Traced.commands h s run callers t index cmds state)
  | [], _, _ => Sound.pure ()
  | .script source :: rest, index, state => by
    unfold Traced.commands
    rcases Shell.Script.ofString source with e | script
    · exact Warrants.throw _
    · refine (sound_statements script state).bind fun state => ?_
      split
      · exact Sound.pure ()
      · exact sound_commands hrun rest (index + 1) state
  | .task sub :: rest, index, state => (hrun sub).bind fun _ => sound_commands hrun rest (index + 1) state

theorem sound_dependencies {run : Task → Traced Unit} (hrun : ∀ u, Sound (run u)) :
    ∀ names : List String, Sound (Traced.dependencies r run callers t names)
  | [] => Sound.pure ()
  | name :: rest => by
    unfold Traced.dependencies
    refine (Sound.silently _).bind fun p => ?_
    split
    · exact (Sound.perform (by simp)).bind fun _ => sound_dependencies hrun rest
    · rcases r.get? name with _ | dependency
      · exact Warrants.throw _
      · exact (Warrants.adapt (hrun dependency)).bind fun _ => sound_dependencies hrun rest

/-- The files of a task are looked at, and left as they are. -/
theorem warrants_settled (force : Bool) :
    Warrants (fun _ => True) (if force then pure none else Traced.perform (t :: callers) .tell (settled s t))
      fun outcome w => outcome = some .skipped → isSkipped w.host.files t = .ok true := by
  cases force with
  | true =>
    rw [if_pos rfl]
    exact Warrants.pure fun _ _ => nofun
  | false =>
    rw [if_neg Bool.false_ne_true]
    refine Warrants.perform (fun _ _ _ => nofun) ?_
    rintro w outcome - hend rfl
    obtain ⟨messages, hw⟩ := settled_eq s t w
    rw [hw] at hend ⊢
    obtain ⟨skipped, hskipped, hend⟩ := exists_of_bind_ok hend
    cases skipped with
    | true => exact hskipped
    | false =>
      obtain ⟨fresh, -, hend⟩ := exists_of_bind_ok hend
      split at hend <;> cases hend

theorem sound_taskWith {run : Bool → Task → Traced Unit} (hrun : ∀ force u, Sound (run force u)) (force : Bool) :
    Sound (Traced.taskWith h s r run callers force t) := by
  unfold Traced.taskWith
  refine (Sound.perform (by simp)).bind fun _ => (sound_dependencies (hrun false) t.deps).bind fun _ =>
    (Sound.perform (by simp)).bind fun _ => (warrants_settled force).bind fun outcome => ?_
  have hfinish (outcome : Outcome) :
      Warrants (fun w => outcome = .skipped → isSkipped w.host.files t = .ok true)
        (Traced.perform callers (.finish t outcome) (Act.advance (·.finish t.name outcome))) fun _ _ => True := by
    refine .perform ?_ fun _ _ _ _ => trivial
    rintro w hw u ⟨⟩
    exact hw rfl
  cases outcome with
  | some outcome =>
    refine Warrants.mono (hfinish outcome) ?_ fun _ _ => id
    rintro w hw rfl
    exact hw rfl
  | none =>
    have hbody : Warrants (fun _ => True) (Traced.body h s r (run force) callers t)
        fun outcome w => outcome = .skipped → isSkipped w.host.files t = .ok true := by
      unfold Traced.body
      refine Warrants.bind (Sound.silently get) fun w =>
        Warrants.bind (sound_commands (hrun force) t.cmds 0 _) fun _ => Warrants.pure ?_
      rintro w -
      split <;> nofun
    exact (hbody.mono (fun _ _ => trivial) fun _ _ => id).bind hfinish

theorem sound_taskAt : ∀ (level : Nat) (callers : List Task) (force : Bool) (t : Task),
    Sound (Traced.taskAt h s r level callers force t) := by
  intro level
  induction level with
  | zero =>
    intro callers force t
    unfold Traced.taskAt
    refine (Sound.silently _).bind fun p => ?_
    split
    · exact Sound.pure ()
    · exact Warrants.throw _
    · exact Warrants.throw _
  | succ level ih =>
    intro callers force t
    unfold Traced.taskAt
    refine (Sound.silently _).bind fun p => ?_
    split
    · exact Sound.pure ()
    · exact Warrants.throw _
    · exact sound_taskWith (ih _) force

/-- Every task that ends as skipped in a run is skipped by its files as they are then. -/
theorem warranted_run (name : String) (host : Host) : ∀ e ∈ (Traced.run h s r name host).2, Warranted e := by
  unfold Traced.run
  split
  · nofun
  · rename_i t _
    obtain ⟨more, htrace, hall, -⟩ :=
      sound_taskAt (h := h.withTools) (s := s) (r := r) (maxLevels r) [] s.force t ⟨.initial, host⟩ [] trivial
    rcases hend : Traced.taskAt h.withTools s r (maxLevels r) [] s.force t (⟨.initial, host⟩, []) with
      ⟨f | ⟨⟩, w, es⟩ <;> rw [hend] at htrace <;> obtain rfl : es = more := htrace <;> exact hall

/-- A task that has an outcome has come to its end with it. -/
theorem Path.finish_of_mem_outcomes {root : Task} {p q : Point} {es : List (Deed × Point)}
    (hpath : Path h s r root p es q) {n : String} {outcome : Outcome}
    (hq : (n, outcome) ∈ q.world.progress.report.outcomes) :
    (n, outcome) ∈ p.world.progress.report.outcomes ∨ ∃ t pt, (Deed.finish t outcome, pt) ∈ es ∧ t.name = n := by
  induction hpath with
  | nil => exact .inl hq
  | @cons p m q d es hstep _ ih =>
    rcases ih hq with hm | ⟨t, pt, hmem, ht⟩
    · -- there is an outcome after the first step: it was there, or this step adds it
      cases hstep with
      | @finish _ w t outcome =>
        rcases List.mem_append.1 hm with hm | hm
        · exact .inl hm
        · cases List.mem_singleton.1 hm
          exact .inr ⟨t, _, List.mem_cons_self, rfl⟩
      | _ => exact .inl hm
    · exact .inr ⟨t, pt, List.mem_cons_of_mem _ hmem, ht⟩

/-- What is known of a task that ends as skipped: a pattern of its skip list is satisfied, and each of the others
is as well, unless it has wildcards and nothing matches it. -/
structure Skips (fs : Files) (t : Task) : Prop where
  patterns : ∀ pattern ∈ t.skipIfExists,
    Satisfied fs t pattern ∨ Glob.literal? pattern = none ∧ Unmatched fs t pattern
  some_satisfied : ∃ pattern ∈ t.skipIfExists, Satisfied fs t pattern
  all_satisfied_iff :
    (∀ pattern ∈ t.skipIfExists, Satisfied fs t pattern) ↔ ∀ pattern ∈ t.skipIfExists, ¬ Unmatched fs t pattern

theorem Skips.of_isSkipped (hskip : isSkipped fs t = .ok true) : Skips fs t := by
  obtain ⟨hall, hsome⟩ := isSkipped_iff.1 hskip
  constructor
  · intro pattern hpattern
    rcases (hall pattern hpattern).satisfied_or_unmatched with hsat | hnone
    · exact .inl hsat
    · exact .inr ⟨hnone.literal?_eq_none, hnone⟩
  · exact hsome
  · exact forall_satisfied_iff hskip

/-- **A skip list needs every pattern that stands for a path.** A task is skipped by its files if there is
something at each path that a pattern of its skip list stands for, and one of the patterns stands for a path. In
every run a task that ends as skipped is skipped by its files as they are then: each of its patterns is satisfied,
but for those with wildcards that nothing matches, and one of them is. A skipped task of a report is one that ended
so. -/
theorem skip_list_decides (h : Shell.Handlers) (s : Settings) (r : Registry) (name : String) (host : Host) :
    (∀ fs t, isSkipped fs t = .ok true ↔
      (∀ pattern ∈ t.skipIfExists, Fulfilled fs t pattern) ∧
        ∃ pattern ∈ t.skipIfExists, Satisfied fs t pattern) ∧
    ∃ trace, Traced.run h s r name host = (run h s r name host, trace) ∧
      (∀ t pt, (.finish t .skipped, pt) ∈ trace → Skips pt.world.host.files t) ∧
      ∀ report, (run h s r name host).2 = .ok report → ∀ n, (n, .skipped) ∈ report.outcomes →
        ∃ t pt, (.finish t .skipped, pt) ∈ trace ∧ t.name = n := by
  refine ⟨fun fs t => isSkipped_iff, _, Traced.run_eq h s r name host, ?_, ?_⟩
  · intro t pt hmem
    exact .of_isSkipped (warranted_run name host _ hmem t rfl)
  · intro report hok n hn
    cases hget : r.get? name with
    | none =>
      rw [run_of_get?_none hget] at hok
      cases hok
    | some root =>
      obtain ⟨q, hpath, -, -, hend⟩ := path_run (h := h) (s := s) hget host
      rw [hok] at hend
      obtain ⟨-, rfl⟩ := hend
      exact (hpath.finish_of_mem_outcomes hn).resolve_left (by simp [Progress.initial])

/-- A task with a skip list. -/
def skipping (patterns : List String) : Task :=
  { Task.empty "t" "/" with skipIfExists := patterns, cmds := [.script "true"] }

/-- There is `/one` and nothing else. -/
def oneThere : Host := { (default : Host) with files := (Files.empty 0).put ["one"] .void }

/-- With `one` on its skip list a task is skipped; with `two` as well, which is not there, it is not. -/
theorem skipping_one :
    (run ⟨Program.Sample.exec, Shell.Handlers.openDirect⟩ default ⟨[skipping ["one"]], []⟩ "t" oneThere).2 =
      .ok ⟨[("t", .skipped)], 0⟩ ∧
    (∃ fs t, t.name = "t" ∧ Skips fs t) ∧
    isSkipped oneThere.files (skipping ["one", "two"]) = .ok false := by
  have hrun : (run ⟨Program.Sample.exec, Shell.Handlers.openDirect⟩ default ⟨[skipping ["one"]], []⟩ "t"
      oneThere).2 = .ok ⟨[("t", .skipped)], 0⟩ := by cbv
  obtain ⟨-, trace, -, hskips, hends⟩ := skip_list_decides ⟨Program.Sample.exec, Shell.Handlers.openDirect⟩ default
    ⟨[skipping ["one"]], []⟩ "t" oneThere
  obtain ⟨t, pt, hmem, ht⟩ := hends _ hrun "t" (by simp)
  exact ⟨hrun, ⟨_, t, ht, hskips t pt hmem⟩, by cbv⟩

/-- A pattern that nothing matches is passed over beside one that is satisfied, though a skip list of it alone
does not have a task skipped. -/
theorem unmatched_passed_over :
    (run ⟨Program.Sample.exec, Shell.Handlers.openDirect⟩ default ⟨[skipping ["one", "*.none"]], []⟩ "t"
      oneThere).2 = .ok ⟨[("t", .skipped)], 0⟩ ∧
    ¬ Satisfied oneThere.files (skipping ["one", "*.none"]) "*.none" ∧
    isSkipped oneThere.files (skipping ["*.none"]) ≠ .ok true := by
  have hnone : Unmatched oneThere.files (skipping ["*.none"]) "*.none" := by
    unfold Unmatched
    cbv
  refine ⟨by cbv, fun hsat => hsat.not_unmatched hnone, ?_⟩
  intro hskip
  obtain ⟨pattern, hpattern, hsat⟩ := (isSkipped_iff.1 hskip).2
  obtain rfl : pattern = "*.none" := List.mem_singleton.1 hpattern
  exact hsat.not_unmatched hnone

end Execution
end Taskwork
