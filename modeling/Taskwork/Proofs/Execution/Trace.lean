/-
A run step by step. Beside what it does, a traced run notes every step with the tasks in progress,
those whose run has begun and is not over, and the world as it is then. What a step can do is said once
(`Step`); a traced run is the run itself, and its trace is a path of such steps from the beginning to
where the run ends (`path_run`), so that what every step keeps is true at every point of every run.
-/
import Taskwork.Proofs.Execution.Faults
import Taskwork.Proofs.Execution.Passage
import Taskwork.Proofs.Task.Needs

namespace Taskwork.Execution

/-! ## Points and steps -/

/-- Where a run is: the tasks in progress, the innermost first, and the world. -/
structure Point where
  calls : List Task
  world : World

/-- What is done from one point of a run to the next. -/
inductive Deed where
  | start (t : Task)
  /-- A dependency of the innermost task is found done. -/
  | pass (name : String)
  /-- The dependencies of a task are done. -/
  | ready (t : Task)
  /-- Something is said about the innermost task. -/
  | tell
  /-- A statement of the innermost task is run. -/
  | execute
  | count
  | finish (t : Task) (outcome : Outcome)

def Deed.started? : Deed → Option Task
  | .start t => some t
  | _ => none

section Paths

variable (h : Shell.Handlers) (s : Settings) (r : Registry) (root : Task)

/-- What a step of a run for `root` can do. -/
inductive Step : Point → Deed → Point → Prop where
  | start {calls : List Task} {w : World} {t : Task} (hcalled : r.Called root calls t)
      (hfree : w.progress.mark? t.name = none) :
      Step ⟨calls, w⟩ (.start t) ⟨t :: calls, { w with progress := w.progress.start t.name }⟩
  | pass {calls : List Task} {w : World} {t : Task} {name : String} (hdep : name ∈ t.deps)
      (hdone : w.progress.mark? name = some .done) :
      Step ⟨t :: calls, w⟩ (.pass name) ⟨t :: calls, w⟩
  | ready {calls : List Task} {w : World} {t : Task}
      (hdone : ∀ d ∈ t.deps, w.progress.mark? d = some .done) :
      Step ⟨t :: calls, w⟩ (.ready t) ⟨t :: calls, w⟩
  | tell {calls : List Task} {w : World} {t : Task} (messages : List (Level × String)) :
      Step ⟨t :: calls, w⟩ .tell ⟨t :: calls, w.said messages⟩
  | execute {calls : List Task} {w : World} {t : Task} (hrun : s.dryRun = false)
      (statement : Shell.Statement) (state : Shell.State) :
      Step ⟨t :: calls, w⟩ .execute
        ⟨t :: calls, { w with host := (Shell.Run.statement h statement ⟨state, [], w.host⟩).2.host }⟩
  | count {calls : List Task} {w : World} {t : Task} (hrun : s.dryRun = false) :
      Step ⟨t :: calls, w⟩ .count ⟨t :: calls, { w with progress := w.progress.count }⟩
  | finish {calls : List Task} {w : World} {t : Task} {outcome : Outcome}
      (hout : outcome = .executed → s.dryRun = false) :
      Step ⟨t :: calls, w⟩ (.finish t outcome)
        ⟨calls, { w with progress := w.progress.finish t.name outcome }⟩

/-- Steps one after another, each with the point it leads to. -/
inductive Path : Point → List (Deed × Point) → Point → Prop where
  | nil (p : Point) : Path p [] p
  | cons {p q z : Point} {d : Deed} {es : List (Deed × Point)} (hstep : Step h s r root p d q)
      (hrest : Path q es z) : Path p ((d, q) :: es) z

end Paths

variable {h : Shell.Handlers} {s : Settings} {r : Registry} {root : Task}

namespace Path

variable {p q z : Point} {d : Deed} {es fs : List (Deed × Point)}

theorem single (hstep : Step h s r root p d q) : Path h s r root p [(d, q)] q := .cons hstep (.nil q)

theorem append (hp : Path h s r root p es q) (hq : Path h s r root q fs z) :
    Path h s r root p (es ++ fs) z := by
  induction hp with
  | nil => exact hq
  | cons hstep _ ih => exact .cons hstep (ih hq)

/-- Where a step stands in a path, the path leads to it and on from it. -/
theorem split (hp : Path h s r root p (es ++ (d, q) :: fs) z) :
    ∃ p', Path h s r root p es p' ∧ Step h s r root p' d q ∧ Path h s r root q fs z := by
  induction es generalizing p with
  | nil =>
    cases hp with
    | cons hstep hrest => exact ⟨p, .nil p, hstep, hrest⟩
  | cons e es ih =>
    cases hp with
    | cons hstep hrest =>
      obtain ⟨p', hbefore, hd, hafter⟩ := ih hrest
      exact ⟨p', .cons hstep hbefore, hd, hafter⟩

theorem exists_step (hp : Path h s r root p es z) {e : Deed × Point} (he : e ∈ es) :
    ∃ p', Step h s r root p' e.1 e.2 := by
  obtain ⟨before, after, rfl⟩ := List.append_of_mem he
  obtain ⟨p', -, hstep, -⟩ := hp.split
  exact ⟨p', hstep⟩

/-- What every step keeps is true wherever a path leads. -/
theorem invariant {I : Point → Prop} (hkeep : ∀ p d q, I p → Step h s r root p d q → I q)
    (hp : Path h s r root p es q) (hI : I p) : I q ∧ ∀ e ∈ es, I e.2 := by
  induction hp with
  | nil p => exact ⟨hI, nofun⟩
  | cons hstep _ ih =>
    have hnext := hkeep _ _ _ hI hstep
    obtain ⟨hend, hrest⟩ := ih hnext
    exact ⟨hend, List.forall_mem_cons.2 ⟨hnext, hrest⟩⟩

end Path

/-- What is done stays done. -/
theorem Step.done {p q : Point} {d : Deed} {n : String} (hp : p.world.progress.mark? n = some .done)
    (hstep : Step h s r root p d q) : q.world.progress.mark? n = some .done := by
  cases hstep with
  | @start _ w t _ hfree =>
    refine (Progress.mark?_start ..).trans ?_
    rw [if_neg]
    · exact hp
    · rintro rfl
      rw [hfree] at hp
      cases hp
  | finish =>
    refine (Progress.mark?_finish ..).trans ?_
    split
    · rfl
    · exact hp
  | _ => exact hp

theorem Path.done {p q : Point} {es : List (Deed × Point)} {n : String} (hpath : Path h s r root p es q)
    (hp : p.world.progress.mark? n = some .done) : q.world.progress.mark? n = some .done :=
  (hpath.invariant (fun _ _ _ => Step.done) hp).1

/-! ## Traced runs -/

/-- Doing something in a run and noting every step. -/
abbrev Traced (α : Type) := ExceptT Fault (StateM (World × List (Deed × Point))) α

namespace Traced

/-- Looks at the world. -/
def silently {α : Type} (act : Act α) : Traced α := fun (w, es) =>
  let (result, w) := act w
  (result, (w, es))

/-- Does something as a step, after which these tasks are in progress. -/
def perform {α : Type} (calls : List Task) (d : Deed) (act : Act α) : Traced α := fun (w, es) =>
  let (result, w) := act w
  (result, (w, es ++ [(d, ⟨calls, w⟩)]))

section Interpreter

variable (h : Shell.Handlers) (s : Settings)

def statements (callers : List Task) (t : Task) : Shell.Script → Shell.State → Traced Shell.State
  | [], state => return state
  | statement :: rest, state => do
    perform (t :: callers) .tell (Act.report .info statement.text)
    if s.dryRun then statements callers t rest state
    else
      let w ← silently get
      let (result, sw) := Shell.Run.statement h statement ⟨state, [], w.host⟩
      perform (t :: callers) .execute (set { w with host := sw.host })
      match result with
      | .error stop => throw (.command t.name (.stopped stop))
      | .ok () =>
        perform (t :: callers) .count (Act.advance (·.count))
        if sw.state.exited then return sw.state else statements callers t rest sw.state

def commands (run : Task → Traced Unit) (callers : List Task) (t : Task) (index : Nat) :
    List TaskCommand → Shell.State → Traced Unit
  | [], _ => return
  | .script source :: rest, state => do
    match Shell.Script.ofString source with
    | .error e => throw (.command t.name (.script (t.name ++ ":" ++ toString index) e))
    | .ok script =>
      let state ← statements h s callers t script state
      if state.exited then return else commands run callers t (index + 1) rest state
  | .task sub :: rest, state => do
    run sub
    commands run callers t (index + 1) rest state

variable (r : Registry)

def dependencies (run : Task → Traced Unit) (callers : List Task) (t : Task) :
    List String → Traced Unit
  | [] => return
  | name :: rest => do
    if (← silently Act.progress).mark? name = some .done then
      perform (t :: callers) (.pass name) (return)
      dependencies run callers t rest
    else
      match r.get? name with
      | none => throw (.notFound name)
      | some dependency =>
        ExceptT.adapt (.dependency t.name name) (run dependency)
        dependencies run callers t rest

def body (run : Task → Traced Unit) (callers : List Task) (t : Task) : Traced Outcome := do
  let w ← silently get
  commands h s run callers t 0 t.cmds (initialState w.host.env r.env t)
  return if s.dryRun then .dryRun else .executed

def taskWith (run : (force : Bool) → Task → Traced Unit) (callers : List Task) (force : Bool)
    (t : Task) : Traced Unit := do
  perform (t :: callers) (.start t) (Act.advance (·.start t.name))
  dependencies r (run false) callers t t.deps
  perform (t :: callers) (.ready t) (return)
  let outcome ← match ← (if force then pure none else perform (t :: callers) .tell (settled s t)) with
    | some outcome => pure outcome
    | none => body h s r (run force) callers t
  perform callers (.finish t outcome) (Act.advance (·.finish t.name outcome))

def taskAt : Nat → (callers : List Task) → (force : Bool) → Task → Traced Unit
  | level, callers, force, t => do
    match (← silently Act.progress).mark? t.name with
    | some .done => return
    | some .running => throw (.recursive t.name)
    | none =>
      match level with
      | 0 => throw (.recursive t.name)
      | level + 1 => taskWith h s r (taskAt level (t :: callers)) callers force t

/-- A run and its trace. -/
def run (name : String) (host : Host) : (Host × Except Fault Report) × List (Deed × Point) :=
  match r.get? name with
  | none => ((host, .error (.notFound name)), [])
  | some t =>
    match taskAt h.withTools s r (maxLevels r) [] s.force t (⟨.initial, host⟩, []) with
    | (.ok (), (w, es)) => ((w.host, .ok w.progress.report), es)
    | (.error f, (w, es)) => ((w.host, .error f), es)

end Interpreter
end Traced

/-! ## Following a run -/

/-- Where a run is when it fails: if it is for want of a task, a dependency of the innermost task in
progress is neither registered nor done. -/
def Stuck (r : Registry) (q : Point) (f : Fault) : Prop :=
  ∀ d, f.rootCause = .notFound d → r.get? d = none ∧
    ∃ t callers, q.calls = t :: callers ∧ d ∈ t.deps ∧ q.world.progress.mark? d ≠ some .done

theorem stuck_recursive {q : Point} (name : String) : Stuck r q (.recursive name) := by
  intro d hd
  cases hd

theorem stuck_command {q : Point} (task : String) (f : CommandFault) : Stuck r q (.command task f) := by
  intro d hd
  cases hd

theorem stuck_of_files {q : Point} {f : Fault} (hf : f.OfFiles) : Stuck r q f := by
  intro d hd
  rw [hf.rootCause] at hd
  subst hd
  exact hf.elim

variable (h s r root) in
/-- What is traced from the point `p` on is what is done, and the trace is a path of steps. If it ends
well, `Q` is true of the result, the trace and the point it leads to. -/
def Follows {α : Type} (p : Point) (x : Traced α) (act : Act α)
    (Q : α → List (Deed × Point) → Point → Prop) : Prop :=
  ∀ es, ∃ more q, x (p.world, es) = ((act p.world).1, (act p.world).2, es ++ more) ∧
    Path h s r root p more q ∧ q.world = (act p.world).2 ∧
      match (act p.world).1 with
      | .ok a => Q a more q
      | .error f => Stuck r q f

namespace Follows

variable {α β : Type} {p : Point} {x : Traced α} {act : Act α}
  {Q R : α → List (Deed × Point) → Point → Prop}

theorem pure {a : α} (hQ : Q a [] p) : Follows h s r root p (Pure.pure a) (Pure.pure a) Q := fun es =>
  ⟨[], p, by rw [List.append_nil]; rfl, .nil p, rfl, hQ⟩

theorem throw {f : Fault} (hf : Stuck r p f) :
    Follows h s r root p (MonadExcept.throw f) (MonadExcept.throw f) Q := fun es =>
  ⟨[], p, by rw [List.append_nil]; rfl, .nil p, rfl, hf⟩

theorem mono (hx : Follows h s r root p x act Q)
    (hQR : ∀ a more q, Path h s r root p more q → Q a more q → R a more q) :
    Follows h s r root p x act R := by
  intro es
  obtain ⟨more, q, hxes, hpath, hw, hend⟩ := hx es
  refine ⟨more, q, hxes, hpath, hw, ?_⟩
  cases hact : (act p.world).1 with
  | error f => rwa [hact] at hend
  | ok a =>
    rw [hact] at hend
    exact hQR a more q hpath hend

theorem bind {f : α → Traced β} {g : α → Act β} {R : β → List (Deed × Point) → Point → Prop}
    (hx : Follows h s r root p x act Q)
    (hf : ∀ a more q, Path h s r root p more q → Q a more q →
      Follows h s r root q (f a) (g a) fun b more' z => R b (more ++ more') z) :
    Follows h s r root p (x >>= f) (act >>= g) R := by
  intro es
  obtain ⟨more, q, hxes, hpath, hw, hend⟩ := hx es
  rw [Stateful.bind_apply, Stateful.bind_apply, hxes]
  rcases hact : act p.world with ⟨e | a, w⟩ <;> rw [hact] at hw hend
  · exact ⟨more, q, rfl, hpath, hw, hend⟩
  · obtain ⟨more', z, hfes, hpath', hz, hend'⟩ := hf a more q hpath hend (es ++ more)
    obtain rfl : q.world = w := hw
    refine ⟨more ++ more', z, ?_, hpath.append hpath', hz, hend'⟩
    rw [← List.append_assoc]
    exact hfes

/-- Looking at the world is no step. -/
theorem look {a : α} {f : α → Traced β} {g : α → Act β} {R : β → List (Deed × Point) → Point → Prop}
    (hact : act p.world = (.ok a, p.world)) (hf : Follows h s r root p (f a) (g a) R) :
    Follows h s r root p (Traced.silently act >>= f) (act >>= g) R := by
  intro es
  have hx : Traced.silently act (p.world, es) = (.ok a, (p.world, es)) := by
    simp only [Traced.silently, hact]
  rw [Stateful.bind_ok hx, Stateful.bind_ok hact]
  exact hf es

/-- A step that does something. -/
theorem first {a : α} {w : World} {calls : List Task} {d : Deed} {f : α → Traced β} {g : α → Act β}
    {R : β → List (Deed × Point) → Point → Prop} (hact : act p.world = (.ok a, w))
    (hstep : Step h s r root p d ⟨calls, w⟩)
    (hf : Follows h s r root ⟨calls, w⟩ (f a) (g a) fun b more q => R b ((d, ⟨calls, w⟩) :: more) q) :
    Follows h s r root p (Traced.perform calls d act >>= f) (act >>= g) R := by
  intro es
  have hx : Traced.perform calls d act (p.world, es) = (.ok a, (w, es ++ [(d, ⟨calls, w⟩)])) := by
    simp only [Traced.perform, hact]
  rw [Stateful.bind_ok hx, Stateful.bind_ok hact]
  obtain ⟨more, q, hfes, hpath, hw, hend⟩ := hf (es ++ [(d, ⟨calls, w⟩)])
  refine ⟨(d, ⟨calls, w⟩) :: more, q, ?_, .cons hstep hpath, hw, hend⟩
  rw [hfes, List.append_assoc]
  rfl

/-- A step in which nothing is done but seen. -/
theorem note {d : Deed} {x : Traced α} (hstep : Step h s r root p d p)
    (hx : Follows h s r root p x act fun a more q => Q a ((d, p) :: more) q) :
    Follows h s r root p (Traced.perform p.calls d (return) >>= fun _ => x) act Q := by
  have hnothing : (return : Act Unit) p.world = (.ok (), p.world) := rfl
  have hthen : Follows h s r root p (Traced.perform p.calls d (return) >>= fun _ => x)
      ((return : Act Unit) >>= fun _ => act) Q := first hnothing hstep hx
  exact hthen

theorem perform {calls : List Task} {d : Deed} (hstep : Step h s r root p d ⟨calls, (act p.world).2⟩)
    (hend : match (act p.world).1 with
      | .ok a => Q a [(d, ⟨calls, (act p.world).2⟩)] ⟨calls, (act p.world).2⟩
      | .error f => Stuck r ⟨calls, (act p.world).2⟩ f) :
    Follows h s r root p (Traced.perform calls d act) act Q :=
  fun _ => ⟨_, _, rfl, Path.single hstep, rfl, hend⟩

theorem adapt {g : Fault → Fault} (hg : ∀ f, (g f).rootCause = f.rootCause)
    (hx : Follows h s r root p x act Q) : Follows h s r root p (ExceptT.adapt g x) (ExceptT.adapt g act) Q := by
  intro es
  obtain ⟨more, q, hxes, hpath, hw, hend⟩ := hx es
  rw [Stateful.adapt_apply, Stateful.adapt_apply, hxes]
  refine ⟨more, q, rfl, hpath, hw, ?_⟩
  cases hact : (act p.world).1 with
  | ok a => rwa [hact] at hend
  | error f =>
    rw [hact] at hend
    exact fun d hd => hend d ((hg f).symm.trans hd)

end Follows

/-! ## Parts of a run -/

/-- A part of a run after which the same tasks are in progress as before; those started on the way got
ready. -/
structure Returns (calls : List Task) (more : List (Deed × Point)) (q : Point) : Prop where
  calls : q.calls = calls
  prepared : ∀ t p, (Deed.start t, p) ∈ more → ∃ p', (Deed.ready t, p') ∈ more

namespace Returns

variable {calls : List Task} {more more' : List (Deed × Point)} {q z : Point}

theorem nil (hq : q.calls = calls) : Returns calls [] q := ⟨hq, nofun⟩

theorem cons {d : Deed} (hd : d.started? = none) (h : Returns calls more q) :
    Returns calls ((d, z) :: more) q := by
  refine ⟨h.calls, fun t p hmem => ?_⟩
  rcases List.mem_cons.1 hmem with heq | hmem
  · rw [← (Prod.mk.inj heq).1] at hd
    cases hd
  · obtain ⟨p', hp'⟩ := h.prepared t p hmem
    exact ⟨p', List.mem_cons_of_mem _ hp'⟩

theorem append {calls' : List Task} (h : Returns calls' more q) (h' : Returns calls more' z) :
    Returns calls (more ++ more') z := by
  refine ⟨h'.calls, fun t p hmem => ?_⟩
  rcases List.mem_append.1 hmem with hmem | hmem
  · obtain ⟨p', hp'⟩ := h.prepared t p hmem
    exact ⟨p', List.mem_append_left _ hp'⟩
  · obtain ⟨p', hp'⟩ := h'.prepared t p hmem
    exact ⟨p', List.mem_append_right _ hp'⟩

/-- The run of one task: what it does before it gets ready, and what after. -/
theorem around {t : Task} {p p' : Point} (h : Returns (t :: calls) more q) (h' : Returns calls more' z) :
    Returns calls ((.start t, p) :: (more ++ (.ready t, p') :: more')) z := by
  have hready : (Deed.ready t, p') ∈ (Deed.start t, p) :: (more ++ (.ready t, p') :: more') :=
    List.mem_cons_of_mem _ (List.mem_append_right _ List.mem_cons_self)
  refine ⟨h'.calls, fun u p₁ hmem => ?_⟩
  rcases List.mem_cons.1 hmem with heq | hmem
  · cases heq
    exact ⟨p', hready⟩
  rcases List.mem_append.1 hmem with hmem | hmem
  · obtain ⟨p₂, hp₂⟩ := h.prepared u p₁ hmem
    exact ⟨p₂, List.mem_cons_of_mem _ (List.mem_append_left _ hp₂)⟩
  · obtain ⟨p₂, hp₂⟩ := h'.prepared u p₁ ((List.mem_cons.1 hmem).resolve_left nofun)
    exact ⟨p₂, List.mem_cons_of_mem _ (List.mem_append_right _ (List.mem_cons_of_mem _ hp₂))⟩

end Returns

variable (h s r root) in
/-- A part of a run while these tasks are in progress: it is followed by its trace, and when it ends
well the same tasks are in progress and `P` is true of its result and the world. -/
def Runs {α : Type} (calls : List Task) (w : World) (x : Traced α) (act : Act α) (P : α → World → Prop) :
    Prop :=
  Follows h s r root ⟨calls, w⟩ x act fun a more q => Returns calls more q ∧ P a q.world

namespace Runs

variable {α β : Type} {calls : List Task} {w : World} {x : Traced α} {act : Act α} {P Q : α → World → Prop}

theorem pure {a : α} (hP : P a w) : Runs h s r root calls w (Pure.pure a) (Pure.pure a) P :=
  Follows.pure ⟨.nil rfl, hP⟩

theorem throw {f : Fault} (hf : Stuck r ⟨calls, w⟩ f) :
    Runs h s r root calls w (MonadExcept.throw f) (MonadExcept.throw f) P :=
  Follows.throw hf

theorem look {a : α} {f : α → Traced β} {g : α → Act β} {R : β → World → Prop} (hact : act w = (.ok a, w))
    (hf : Runs h s r root calls w (f a) (g a) R) :
    Runs h s r root calls w (Traced.silently act >>= f) (act >>= g) R :=
  Follows.look hact hf

/-- A step that starts no task and leaves those in progress as they are. -/
theorem first {a : α} {w' : World} {d : Deed} {f : α → Traced β} {g : α → Act β} {R : β → World → Prop}
    (hact : act w = (.ok a, w')) (hd : d.started? = none)
    (hstep : Step h s r root ⟨calls, w⟩ d ⟨calls, w'⟩) (hf : Runs h s r root calls w' (f a) (g a) R) :
    Runs h s r root calls w (Traced.perform calls d act >>= f) (act >>= g) R :=
  Follows.first hact hstep
    (Follows.mono hf fun _ _ _ _ hend => ⟨hend.1.cons hd, hend.2⟩)

theorem note {d : Deed} (hd : d.started? = none) (hstep : Step h s r root ⟨calls, w⟩ d ⟨calls, w⟩)
    (hx : Runs h s r root calls w x act P) :
    Runs h s r root calls w (Traced.perform calls d (return) >>= fun _ => x) act P :=
  Follows.note hstep
    (Follows.mono hx fun _ _ _ _ hend => ⟨hend.1.cons hd, hend.2⟩)

theorem bind {f : α → Traced β} {g : α → Act β} {R : β → World → Prop}
    (hx : Runs h s r root calls w x act P)
    (hf : ∀ a w, P a w → Runs h s r root calls w (f a) (g a) R) :
    Runs h s r root calls w (x >>= f) (act >>= g) R := by
  refine Follows.bind hx fun a more q _ ⟨hreturns, hP⟩ => ?_
  obtain ⟨calls', w⟩ := q
  obtain rfl : calls' = calls := hreturns.calls
  exact (hf a w hP).mono fun _ _ _ _ hend => ⟨hreturns.append hend.1, hend.2⟩

theorem adapt (g : Fault → Fault) (hg : ∀ f, (g f).rootCause = f.rootCause)
    (hx : Runs h s r root calls w x act P) :
    Runs h s r root calls w (ExceptT.adapt g x) (ExceptT.adapt g act) P :=
  Follows.adapt hg hx

theorem mono (hx : Runs h s r root calls w x act P)
    (hPQ : ∀ a q more, Path h s r root ⟨calls, w⟩ more q → P a q.world → Q a q.world) :
    Runs h s r root calls w x act Q :=
  Follows.mono hx fun a more q hpath hend => ⟨hend.1, hPQ a q more hpath hend.2⟩

end Runs

variable {callers : List Task} {t : Task}

theorem runs_statements : ∀ (script : Shell.Script) (state : Shell.State) (w : World),
    Runs h s r root (t :: callers) w (Traced.statements h s callers t script state)
      (statements h s t script state) fun _ _ => True
  | [], state, w => .pure trivial
  | statement :: rest, state, w => by
    unfold Traced.statements statements
    have htell : Act.report .info statement.text w = (.ok (), w.said [(.info, statement.text)]) := rfl
    refine Runs.first htell rfl (.tell _) ?_
    generalize w.said [(.info, statement.text)] = w
    split
    · exact runs_statements rest state w
    · rename_i hrun
      have hrun : s.dryRun = false := eq_false_of_ne_true hrun
      have hexecute : Step h s r root ⟨t :: callers, w⟩ .execute ⟨t :: callers, { w with
          host := (Shell.Run.statement h statement ⟨state, [], w.host⟩).2.host }⟩ :=
        .execute hrun statement state
      refine Runs.look (a := w) rfl ?_
      rcases hsw : Shell.Run.statement h statement ⟨state, [], w.host⟩ with ⟨result, sw⟩
      rw [hsw] at hexecute
      refine Runs.first rfl rfl hexecute ?_
      cases result with
      | error stop => exact Runs.throw (stuck_command _ _)
      | ok =>
        refine Runs.first rfl rfl (.count hrun) ?_
        split
        · exact .pure trivial
        · exact runs_statements rest sw.state _

theorem runs_commands {run : Task → Traced Unit} {run' : Task → Act Unit} :
    ∀ cmds : List TaskCommand,
      (∀ u ∈ Task.embedded cmds, ∀ w, Runs h s r root (t :: callers) w (run u) (run' u) fun _ _ => True) →
      ∀ (index : Nat) (state : Shell.State) (w : World),
        Runs h s r root (t :: callers) w (Traced.commands h s run callers t index cmds state)
          (commands h s run' t index cmds state) fun _ _ => True
  | [], _, _, _, _ => .pure trivial
  | .script source :: rest, hrun, index, state, w => by
    unfold Traced.commands commands
    cases Shell.Script.ofString source with
    | error e => exact .throw (stuck_command _ _)
    | ok script =>
      refine (runs_statements script state w).bind fun state w _ => ?_
      split
      · exact .pure trivial
      · exact runs_commands rest hrun (index + 1) state w
  | .task sub :: rest, hrun, index, state, w =>
    (hrun sub List.mem_cons_self w).bind fun _ w _ =>
      runs_commands rest (fun u hu => hrun u (List.mem_cons_of_mem _ hu)) (index + 1) state w

/-- The dependencies of a task are done when it has run them. -/
theorem runs_dependencies {run : Task → Traced Unit} {run' : Task → Act Unit} :
    ∀ {names : List String}, (∀ name ∈ names, name ∈ t.deps) →
      (∀ name ∈ names, ∀ u, r.get? name = some u → ∀ w, Runs h s r root (t :: callers) w (run u) (run' u)
        fun _ w => w.progress.mark? u.name = some .done) →
      ∀ w, Runs h s r root (t :: callers) w (Traced.dependencies r run callers t names)
        (dependencies r run' t names) fun _ w => ∀ d ∈ names, w.progress.mark? d = some .done
  | [], _, _, _ => .pure nofun
  | name :: rest, hdeps, hrun, w => by
    have hrest (w : World) (hdone : w.progress.mark? name = some .done) :
        Runs h s r root (t :: callers) w (Traced.dependencies r run callers t rest)
          (dependencies r run' t rest) fun _ w => ∀ d ∈ name :: rest, w.progress.mark? d = some .done :=
      (runs_dependencies (fun d hd => hdeps d (List.mem_cons_of_mem _ hd))
        (fun d hd => hrun d (List.mem_cons_of_mem _ hd)) w).mono fun _ _ _ hpath hend =>
          List.forall_mem_cons.2 ⟨hpath.done hdone, hend⟩
    unfold Traced.dependencies dependencies
    refine Runs.look (a := w.progress) rfl ?_
    split
    · rename_i hdone
      exact Runs.note rfl (.pass (hdeps name List.mem_cons_self) hdone) (hrest w hdone)
    · rename_i hdone
      cases hget : r.get? name with
      | none =>
        refine .throw fun d hd => ?_
        obtain rfl : name = d := Fault.notFound.inj hd
        exact ⟨hget, t, callers, rfl, hdeps name List.mem_cons_self, hdone⟩
      | some u =>
        refine ((hrun name List.mem_cons_self u hget w).adapt (.dependency t.name name) fun _ => rfl).bind
          fun _ w hdone => ?_
        rw [Registry.name_of_get? hget] at hdone
        exact hrest w hdone

theorem runs_body {run : Task → Traced Unit} {run' : Task → Act Unit}
    (hrun : ∀ u ∈ t.subTasks, ∀ w, Runs h s r root (t :: callers) w (run u) (run' u) fun _ _ => True)
    (w : World) :
    Runs h s r root (t :: callers) w (Traced.body h s r run callers t) (body h s r run' t)
      fun outcome _ => outcome = .executed → s.dryRun = false := by
  unfold Traced.body body
  refine Runs.look (a := w) rfl ((runs_commands t.cmds hrun 0 _ w).bind fun _ w _ => .pure ?_)
  cases s.dryRun with
  | true => exact nofun
  | false => exact fun _ => rfl

/-- Looking at the files of a task, it is not found to have been run. -/
theorem runs_settled (force : Bool) (w : World) :
    Runs h s r root (t :: callers) w
      (if force then pure none else Traced.perform (t :: callers) .tell (settled s t))
      (if force then pure none else settled s t) fun outcome _ => outcome ≠ some .executed := by
  split
  · exact .pure nofun
  · obtain ⟨messages, hw⟩ := settled_eq s t w
    refine Follows.perform (by rw [hw]; exact .tell messages) ?_
    rw [hw]
    cases houtcome : outcomeOf w.host.files t with
    | ok outcome =>
      refine ⟨.cons rfl (.nil rfl), ?_⟩
      rintro rfl
      exact outcomeOf_ne_executed _ _ houtcome
    | error f => exact stuck_of_files (FailsWith.outcomeOf _ _ f houtcome).1

/-- A task that has not been started is started, gets ready, and is finished. -/
theorem runs_taskWith {run : Bool → Task → Traced Unit} {run' : Bool → Task → Act Unit} {force : Bool}
    {w : World} (hcalled : r.Called root callers t) (hfree : w.progress.mark? t.name = none)
    (hrun : ∀ force u, r.Needs t u → ∀ w, Runs h s r root (t :: callers) w (run force u) (run' force u)
      fun _ w => w.progress.mark? u.name = some .done) :
    Runs h s r root callers w (Traced.taskWith h s r run callers force t) (taskWith h s r run' force t)
      fun _ w => w.progress.mark? t.name = some .done := by
  have hdeps (w : World) : Runs h s r root (t :: callers) w
      (Traced.dependencies r (run false) callers t t.deps) (dependencies r (run' false) t t.deps)
      fun _ w => ∀ d ∈ t.deps, w.progress.mark? d = some .done :=
    runs_dependencies (fun _ hd => hd) (fun d hd u hu => hrun false u (.dependency hd hu)) w
  have hfinish (outcome : Outcome) (hout : outcome = .executed → s.dryRun = false) (w : World) :
      Follows h s r root ⟨t :: callers, w⟩
        (Traced.perform callers (.finish t outcome) (Act.advance (·.finish t.name outcome)))
        (Act.advance (·.finish t.name outcome)) fun _ more q =>
          Returns callers more q ∧ q.world.progress.mark? t.name = some .done :=
    Follows.perform (.finish hout)
      ⟨.cons rfl (.nil rfl), (Progress.mark?_finish ..).trans (if_pos rfl)⟩
  unfold Traced.taskWith taskWith
  refine Follows.first rfl (.start hcalled hfree) (Follows.bind (hdeps _) ?_)
  rintro _ more₁ ⟨calls, w₁⟩ - ⟨hreturns, hdone⟩
  obtain rfl : calls = t :: callers := hreturns.calls
  refine Follows.note (.ready hdone) ?_
  -- what comes before the task is ready is done with; the rest is about what follows
  have haround {x : Traced Unit} {act : Act Unit} (hx : Follows h s r root ⟨t :: callers, w₁⟩ x act
      fun _ more q => Returns callers more q ∧ q.world.progress.mark? t.name = some .done) :
      Follows h s r root ⟨t :: callers, w₁⟩ x act fun _ more q =>
        Returns callers ((.start t, ⟨t :: callers, { w with progress := w.progress.start t.name }⟩) ::
          (more₁ ++ (.ready t, ⟨t :: callers, w₁⟩) :: more)) q ∧ q.world.progress.mark? t.name = some .done :=
    hx.mono fun _ _ _ _ hend => ⟨hreturns.around hend.1, hend.2⟩
  refine haround (Follows.bind (runs_settled force w₁) ?_)
  rintro outcome more₂ ⟨calls, w₂⟩ - ⟨hreturns₂, hne⟩
  obtain rfl : calls = t :: callers := hreturns₂.calls
  cases outcome with
  | some outcome =>
    refine (hfinish outcome (fun heq => absurd (congrArg some heq) hne) w₂).mono fun _ _ _ _ hend => ?_
    exact ⟨hreturns₂.append hend.1, hend.2⟩
  | none =>
    have hcommands : ∀ u ∈ t.subTasks, ∀ w, Runs h s r root (t :: callers) w (run force u) (run' force u)
        fun _ _ => True := fun u hu w => (hrun force u (.command hu) w).mono fun _ _ _ _ _ => trivial
    refine Follows.bind (runs_body hcommands w₂) ?_
    rintro outcome more₃ ⟨calls, w₃⟩ - ⟨hreturns₃, hout⟩
    obtain rfl : calls = t :: callers := hreturns₃.calls
    refine (hfinish outcome hout w₃).mono fun _ _ _ _ hend => ?_
    exact ⟨hreturns₂.append (hreturns₃.append hend.1), hend.2⟩

/-- By induction on the levels; a task that is started runs those it needs one level below. -/
theorem runs_taskAt : ∀ (level : Nat) (force : Bool) {callers : List Task} {t : Task},
    r.Called root callers t → ∀ w, Runs h s r root callers w (Traced.taskAt h s r level callers force t)
      (taskAt h s r level force t) fun _ w => w.progress.mark? t.name = some .done := by
  intro level
  induction level with
  | zero =>
    intro force callers t _ w
    unfold Traced.taskAt taskAt
    refine Runs.look (a := w.progress) rfl ?_
    cases hmark : w.progress.mark? t.name with
    | none => exact .throw (stuck_recursive _)
    | some m =>
      cases m with
      | done => exact .pure hmark
      | running => exact .throw (stuck_recursive _)
  | succ level ih =>
    intro force callers t hcalled w
    unfold Traced.taskAt taskAt
    refine Runs.look (a := w.progress) rfl ?_
    cases hmark : w.progress.mark? t.name with
    | none =>
      refine runs_taskWith hcalled hmark fun force u hu w => ?_
      have hcalled' : r.Called root (t :: callers) u := ⟨hu, hcalled⟩
      exact ih force hcalled' w
    | some m =>
      cases m with
      | done => exact .pure hmark
      | running => exact .throw (stuck_recursive _)

/-! ## Runs -/

/-- A task that is not registered is not run. -/
theorem run_of_get?_none {name : String} (hget : r.get? name = none) (host : Host) :
    run h s r name host = (host, .error (.notFound name)) := by
  unfold run
  rw [hget]

theorem Traced.run_of_get?_none {name : String} (hget : r.get? name = none) (host : Host) :
    Traced.run h s r name host = ((host, .error (.notFound name)), []) := by
  unfold Traced.run
  rw [hget]

variable (h s r) in
/-- A traced run is the run, with its trace. -/
theorem Traced.run_eq (name : String) (host : Host) :
    Traced.run h s r name host = (Execution.run h s r name host, (Traced.run h s r name host).2) := by
  refine Prod.ext ?_ rfl
  cases hget : r.get? name with
  | none => rw [Traced.run_of_get?_none hget, Execution.run_of_get?_none hget]
  | some t =>
    have hcalled : r.Called t [] t := rfl
    obtain ⟨more, q, hrun, -⟩ := runs_taskAt (h := h.withTools) (s := s) (maxLevels r) s.force hcalled
      ⟨.initial, host⟩ []
    unfold Traced.run Execution.run
    rw [hget]
    dsimp only
    rw [hrun]
    rcases Execution.taskAt h.withTools s r (maxLevels r) s.force t ⟨.initial, host⟩ with ⟨_ | ⟨⟩, w⟩ <;> rfl

/-- The trace of a run leads step by step from the beginning to where the run ends. If it ends well, no
task is in progress then, and those started on the way got ready. -/
theorem path_run {name : String} {t : Task} (hget : r.get? name = some t) (host : Host) :
    ∃ q, Path h.withTools s r t ⟨[], ⟨.initial, host⟩⟩ (Traced.run h s r name host).2 q ∧
      q.world = (taskAt h.withTools s r (maxLevels r) s.force t ⟨.initial, host⟩).2 ∧
      (run h s r name host).1 = q.world.host ∧
      match (run h s r name host).2 with
      | .ok report => Returns [] (Traced.run h s r name host).2 q ∧ report = q.world.progress.report
      | .error f => Stuck r q f := by
  have hcalled : r.Called t [] t := rfl
  obtain ⟨more, q, hrun, hpath, hw, hend⟩ := runs_taskAt (h := h.withTools) (s := s) (maxLevels r) s.force
    hcalled ⟨.initial, host⟩ []
  refine ⟨q, ?_⟩
  unfold Traced.run run
  rw [hget]
  dsimp only
  rw [hrun]
  rcases htask : taskAt h.withTools s r (maxLevels r) s.force t ⟨.initial, host⟩ with ⟨f | ⟨⟩, w⟩ <;>
    rw [htask] at hw hend <;> obtain rfl : q.world = w := hw
  · exact ⟨hpath, rfl, rfl, hend⟩
  · exact ⟨hpath, rfl, rfl, hend.1, rfl⟩

end Taskwork.Execution
