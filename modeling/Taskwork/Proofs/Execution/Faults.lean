/-
What a task fails with by itself. Looking at its files it fails only with a fault of these files, which
names the task, and leaves the world as it is but for what is said; and running a script it fails only by
what stops a statement.
-/
import Taskwork.Execution.Basic
import Taskwork.Proofs.Stateful

namespace Taskwork
namespace Execution

/-- It fails only with faults of which `P` is true. -/
def FailsWith {α : Type} (P : Fault → Prop) (result : Except Fault α) : Prop :=
  ∀ f, result = .error f → P f

/-- A pattern, an input or another file of a task is at fault. -/
def Fault.OfFiles : Fault → Prop
  | .pattern .. => True
  | .input .. => True
  | .stat .. => True
  | _ => False

theorem Fault.OfFiles.rootCause {f : Fault} (hf : f.OfFiles) : f.rootCause = f := by
  cases f with
  | dependency => exact hf.elim
  | _ => rfl

/-- The task that a fault names; one that wraps another names the task that failed by it. -/
def Fault.about : Fault → String
  | .notFound name => name
  | .recursive name => name
  | .dependency task _ _ => task
  | .pattern task _ => task
  | .input task _ _ => task
  | .stat task _ _ => task
  | .command task _ => task

/-- The files of this task are at fault. -/
def Fault.OfFilesOf (task : String) (f : Fault) : Prop := f.OfFiles ∧ f.about = task

namespace FailsWith

variable {α β : Type} {P : Fault → Prop}

theorem ok (a : α) : FailsWith P (.ok a) := fun _ => nofun

theorem error {f : Fault} (hf : P f) : FailsWith P (.error f : Except Fault α) := by
  rintro f' ⟨⟩
  exact hf

theorem bind {e : Except Fault α} {g : α → Except Fault β} (h : FailsWith P e)
    (hg : ∀ a, FailsWith P (g a)) : FailsWith P (e >>= g) := by
  cases e with
  | error f => exact error (h f rfl)
  | ok a => exact hg a

/-! ## Files -/

theorem pathsOf (fs : Files) (t : Task) (patterns : List String) :
    FailsWith (Fault.OfFilesOf t.name) (pathsOf fs t patterns) := by
  unfold Execution.pathsOf
  cases Glob.pathsOfAll fs t.base patterns with
  | ok paths => exact ok paths
  | error e => exact error ⟨trivial, rfl⟩

theorem allExist (fs : Files) (task : String) :
    ∀ paths : List String, FailsWith (Fault.OfFilesOf task) (allExist fs task paths)
  | [] => ok true
  | path :: rest => by
    unfold Execution.allExist
    split
    · exact allExist fs task rest
    · exact ok false
    · exact error ⟨trivial, rfl⟩

theorem isSkipped (fs : Files) (t : Task) : FailsWith (Fault.OfFilesOf t.name) (isSkipped fs t) := by
  unfold Execution.isSkipped
  refine bind (pathsOf fs t _) fun paths => ?_
  split
  · exact ok false
  · exact allExist fs t.name paths

theorem inputTimes (fs : Files) (task : String) :
    ∀ paths : List String, FailsWith (Fault.OfFilesOf task) (inputTimes fs task paths)
  | [] => ok []
  | path :: rest => by
    unfold Execution.inputTimes
    split
    · exact bind (inputTimes fs task rest) fun _ => ok _
    · exact error ⟨trivial, rfl⟩

theorem outputTimes (fs : Files) (task : String) :
    ∀ paths : List String, FailsWith (Fault.OfFilesOf task) (outputTimes fs task paths)
  | [] => ok []
  | path :: rest => by
    unfold Execution.outputTimes
    split
    · exact bind (outputTimes fs task rest) fun _ => ok _
    · exact outputTimes fs task rest
    · exact error ⟨trivial, rfl⟩

theorem freshness (fs : Files) (t : Task) : FailsWith (Fault.OfFilesOf t.name) (freshness fs t) := by
  unfold Execution.freshness
  refine bind (pathsOf fs t _) fun inputs => bind (pathsOf fs t _) fun outputs =>
    bind (inputTimes fs t.name inputs) fun times => ?_
  split
  · exact ok _
  · exact bind (outputTimes fs t.name outputs) fun _ => ok _

end FailsWith

/-! ## What is said -/

end Execution

namespace Host

/-- A host to which more has been said. -/
def said (h : Host) (messages : List (Level × String)) : Host := { h with log := h.log ++ messages }

@[simp] theorem said_nil (h : Host) : h.said [] = h := by rw [said, List.append_nil]

@[simp] theorem said_said (h : Host) (messages more : List (Level × String)) :
    (h.said messages).said more = h.said (messages ++ more) := by
  simp only [said, List.append_assoc]

end Host

namespace Execution

/-- A world in which more has been said. -/
def World.said (w : World) (messages : List (Level × String)) : World :=
  { w with host := w.host.said messages }

theorem reportAll_apply (messages : List (Level × String)) (w : World) :
    Act.reportAll messages w = (.ok (), w.said messages) := by
  induction messages generalizing w with
  | nil =>
    refine congrArg (Prod.mk _) ?_
    simp [World.said]
  | cons row rest ih =>
    have hfirst : Act.report row.1 row.2 w = (.ok (), w.said [row]) := rfl
    refine (Stateful.bind_ok hfirst).trans ((ih _).trans ?_)
    simp [World.said]

/-- The outcome that the files of a task give it, if they give it one. -/
def outcomeOf (fs : Files) (t : Task) : Except Fault (Option Outcome) := do
  if ← isSkipped fs t then return some .skipped
  else return if (← freshness fs t).isUpToDate then some .upToDate else none

/-- Whatever there is to say about it, a task is settled as its files decide. -/
theorem settled_eq (s : Settings) (t : Task) (w : World) :
    ∃ messages, settled s t w = (outcomeOf w.host.files t, w.said messages) := by
  have hsilent : w = w.said [] := by simp [World.said]
  have hfiles : Act.files w = (.ok w.host.files, w) := rfl
  have hlift {α : Type} (e : Except Fault α) : (settled.liftExcept e : Act α) w = (e, w) := rfl
  unfold settled outcomeOf
  rw [Stateful.bind_ok hfiles]
  rcases isSkipped w.host.files t with f | skipped
  · rw [Stateful.bind_error (hlift _)]
    exact ⟨[], congrArg _ hsilent⟩
  rw [Stateful.bind_ok (hlift _)]
  cases skipped with
  | true => exact ⟨[(.info, "skipped because all skip files exist")], rfl⟩
  | false =>
    rw [if_neg Bool.false_ne_true, Stateful.bind_ok hfiles]
    rcases freshness w.host.files t with f | fresh
    · rw [Stateful.bind_error (hlift _)]
      exact ⟨[], congrArg _ hsilent⟩
    · rw [Stateful.bind_ok (hlift _), Stateful.bind_ok (reportAll_apply _ w)]
      exact ⟨fresh.remarks s.spread, rfl⟩

/-- Looking at the files of a task that is not run does not say that it was. -/
theorem outcomeOf_ne_executed (fs : Files) (t : Task) : outcomeOf fs t ≠ .ok (some .executed) := by
  intro h
  obtain ⟨skipped, -, h⟩ := exists_of_bind_ok h
  cases skipped with
  | true => cases h
  | false =>
    obtain ⟨fresh, -, h⟩ := exists_of_bind_ok h
    split at h <;> cases h

theorem FailsWith.outcomeOf (fs : Files) (t : Task) : FailsWith (Fault.OfFilesOf t.name) (outcomeOf fs t) := by
  unfold Execution.outcomeOf
  refine (isSkipped fs t).bind fun skipped => ?_
  split
  · exact ok _
  · exact (freshness fs t).bind fun _ => ok _

/-! ## Acts -/

/-- Whatever the world, it fails only with faults of which `P` is true. -/
def Throws {α : Type} (P : Fault → Prop) (act : Act α) : Prop := ∀ w, FailsWith P (act w).1

namespace Throws

variable {α β : Type} {P Q : Fault → Prop} {act : Act α}

theorem pure (a : α) : Throws P (pure a) := fun _ => .ok a

theorem get : Throws P get := fun w => .ok w

theorem set (w : World) : Throws P (set w : Act Unit) := fun _ => .ok ()

theorem modify (f : World → World) : Throws P (modify f) := fun _ => .ok ()

theorem throw {f : Fault} (hf : P f) : Throws P (throw f : Act α) := fun _ => .error hf

theorem mono (h : Throws P act) (hPQ : ∀ f, P f → Q f) : Throws Q act := fun w f hf => hPQ f (h w f hf)

theorem bind {go : α → Act β} (h : Throws P act) (hgo : ∀ a, Throws P (go a)) : Throws P (act >>= go) := by
  intro w
  have hw := h w
  rw [Stateful.bind_apply]
  rcases hact : act w with ⟨f | a, w'⟩ <;> rw [hact] at hw
  · exact .error (hw f rfl)
  · exact hgo a w'

theorem adapt {g : Fault → Fault} (h : Throws P act) (hg : ∀ f, P f → Q (g f)) :
    Throws Q (ExceptT.adapt g act : Act α) := by
  intro w f hf
  rw [Stateful.adapt_apply] at hf
  rcases hact : (act w).1 with cause | a <;> rw [hact] at hf
  · obtain rfl : g cause = f := Except.error.inj hf
    exact hg cause (h w cause hact)
  · cases hf

end Throws

variable {h : Shell.Handlers} {s : Settings}

/-- Statements fail only by what stops one of them. -/
theorem throws_statements (t : Task) : ∀ (script : Shell.Script) (state : Shell.State),
    Throws (fun f => ∃ stop, f = .command t.name (.stopped stop)) (statements h s t script state)
  | [], state => .pure state
  | statement :: rest, state => by
    unfold statements
    refine (Throws.modify _).bind fun _ => ?_
    split
    · exact throws_statements t rest state
    refine Throws.get.bind fun w => ?_
    rcases Shell.Run.statement h statement ⟨state, [], w.host⟩ with ⟨stop | _, sw⟩
    · exact (Throws.set _).bind fun _ => .throw ⟨stop, rfl⟩
    · refine (Throws.set _).bind fun _ => (Throws.modify _).bind fun _ => ?_
      split
      · exact .pure _
      · exact throws_statements t rest _

theorem throws_settled (t : Task) : Throws (Fault.OfFilesOf t.name) (settled s t) := by
  intro w
  obtain ⟨messages, hw⟩ := settled_eq s t w
  rw [hw]
  exact .outcomeOf _ t

end Execution
end Taskwork
