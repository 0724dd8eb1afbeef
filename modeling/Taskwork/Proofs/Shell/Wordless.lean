/-
Commands without words. While a command is prepared nothing completes in the shell but its substitutions, and the
status of the last one is noted. A command of which no argument comes assigns its values and succeeds, so that its
status is that of its last substitution exactly if this is 0, and no failure of it ends a script.
-/
import Taskwork.Proofs.Shell.Grouping
import Taskwork.Proofs.Shell.Preparation

namespace Taskwork.Shell

/-! ## What completes while words are expanded -/

/-- Nothing completes but substitutions, with some statuses, the last one first. -/
def Substitutes {α : Type} (x : Observed α) : Prop :=
  Stateful.Keeps (fun before after : World × Chronicle =>
    ∃ statuses : List Int, after.2.history = statuses.map .substitution ++ before.2.history) x

namespace Substitutes

variable {α β : Type}

theorem pure (a : α) : Substitutes (Pure.pure a : Observed α) := fun _ => ⟨[], rfl⟩

theorem bind {x : Observed α} {f : α → Observed β} (hx : Substitutes x) (hf : ∀ a, Substitutes (f a)) :
    Substitutes (x >>= f) := by
  refine Stateful.Keeps.bind hx hf ?_
  rintro r s t ⟨earlier, hearlier⟩ ⟨later, hlater⟩
  refine ⟨later ++ earlier, ?_⟩
  rw [hlater, hearlier, List.map_append, List.append_assoc]

theorem plainly (act : Act α) : Substitutes (Observed.plainly act) := fun _ => ⟨[], rfl⟩

theorem used {x : Observed α} (hx : Substitutes x) : Substitutes (Observed.used >>= fun _ => x) :=
  bind (fun _ => ⟨[], rfl⟩) fun _ => hx

theorem buffered {x : Observed Int} (hx : Substitutes x) : Substitutes (Observed.buffered x) := by
  rintro ⟨w, c⟩
  have hwritten := hx ({ w with captured := [] }, c)
  unfold Observed.buffered
  rcases hrun : x ({ w with captured := [] }, c) with ⟨_ | _, w', c'⟩ <;> rw [hrun] at hwritten <;>
    simpa only [hrun] using hwritten

/-- Whatever completes in the copy that a substitution runs in, in the shell itself only the substitution does. -/
theorem isolated (x : Observed Int) : Substitutes (Observed.isolated .substitution x) := by
  rintro ⟨w, c⟩
  unfold Observed.isolated
  rcases hrun : x (w, c) with ⟨stop | status, w', c'⟩ <;> simp only [hrun]
  · cases stop with
    | exit status => exact ⟨[status], rfl⟩
    | failure f => exact ⟨[], rfl⟩
  · exact ⟨[status], rfl⟩

theorem substitution (run : Streams → Observed Int) : Substitutes (Observed.substitution run) :=
  bind (plainly _) fun _ => bind (buffered (isolated _)) fun _ => pure _

theorem lookup (name : String) : Substitutes (Observed.lookup name) := by
  have hplain : Substitutes (Observed.plainly Act.state >>= fun s => Pure.pure ((s.parameter? name).getD "")) :=
    bind (plainly _) fun _ => pure _
  unfold Observed.lookup
  split
  · exact used hplain
  · exact hplain

variable (h : Handlers)

mutual

theorem text : ∀ parts : List Part, Substitutes (Observed.text h parts)
  | [] => by
    unfold Observed.text
    exact pure ""
  | .literal t _ :: rest => by
    unfold Observed.text
    exact bind (text rest) fun _ => pure _
  | .param name fallback _ :: rest => by
    unfold Observed.text
    exact bind (parameter name fallback) fun _ => bind (text rest) fun _ => pure _
  | .subst script _ :: rest => by
    unfold Observed.text
    exact bind (substitution _) fun _ => bind (text rest) fun _ => pure _

theorem parameter (name : String) : ∀ fallback : Option (List Part), Substitutes (Observed.parameter h name fallback)
  | none => by
    unfold Observed.parameter
    exact lookup name
  | some fallback => by
    unfold Observed.parameter
    refine bind (lookup name) fun value => ?_
    split
    · exact text fallback
    · exact pure value

end

theorem parts : ∀ (parts : List Part) (found : Fields), Substitutes (Observed.parts h found parts)
  | [], found => by
    unfold Observed.parts
    exact pure found
  | .literal t quoted :: rest, found => by
    unfold Observed.parts
    exact parts rest _
  | .param name fallback quoted :: rest, found => by
    unfold Observed.parts
    exact bind (parameter h name fallback) fun _ => parts rest _
  | .subst script quoted :: rest, found => by
    unfold Observed.parts
    exact bind (substitution _) fun _ => parts rest _

theorem fields : ∀ words : List Word, Substitutes (Observed.fields h words)
  | [] => by
    unfold Observed.fields
    exact pure []
  | word :: rest => by
    unfold Observed.fields
    exact bind (parts h word _) fun _ => bind (plainly _) fun _ => bind (plainly _) fun _ =>
      bind (fields rest) fun _ => pure _

theorem values (assigns : List Assign) : Substitutes (Observed.values h assigns) := by
  induction assigns with
  | nil =>
    unfold Observed.values
    exact pure []
  | cons assign rest ih =>
    obtain ⟨name, value⟩ := assign
    unfold Observed.values
    exact bind (text h value) fun _ => bind ih fun _ => pure _

theorem redirections : ∀ (redirects : List Redirect) (streams : Streams),
    Substitutes (Observed.redirections h streams redirects)
  | [], streams => by
    unfold Observed.redirections
    exact pure _
  | ⟨fd, kind, target⟩ :: rest, streams => by
    unfold Observed.redirections
    refine bind (text h target) fun _ => bind (plainly _) fun redirected => ?_
    cases redirected with
    | ok streams => exact redirections rest streams
    | error fault => exact pure _

theorem perform (words : List String) (assigned : List (String × String)) (streams : Streams) :
    Substitutes (Observed.perform h words assigned streams) := by
  unfold Observed.perform
  split
  · exact used (plainly _)
  · exact plainly _

/-- Nothing completes in the shell during a simple command but its substitutions. -/
theorem command (streams : Streams) (assigns : List Assign) (words : List Word) (redirects : List Redirect) :
    Substitutes (Observed.command h streams (.simple assigns words redirects)) := by
  unfold Observed.command
  refine bind (fields h words) fun arguments => bind (values h assigns) fun assigned =>
    bind (redirections h redirects streams) fun redirected => ?_
  cases redirected with
  | ok streams => exact perform h arguments assigned streams
  | error fault => exact bind (plainly _) fun _ => pure 1

end Substitutes

/-! ## What is noted -/

/-- After some substitutions the status of the last one is noted. -/
theorem noted_substitutions (start : Int) (statuses : List Int) :
    noted start (statuses.map .substitution) = statuses.head?.getD start := by
  cases statuses <;> rfl

variable {h : Handlers} {streams streams' : Streams} {assigns : List Assign} {words : List Word}
  {redirects : List Redirect} {assigned : List (String × String)} {w w' : World}

/-- A simple command notes the status of the last of its substitutions, and else none. -/
theorem exists_substitutions (h : Handlers) (streams : Streams) (assigns : List Assign) (words : List Word)
    (redirects : List Redirect) (w : World) :
    ∃ (statuses : List Int) (c : Chronicle),
      Observed.command h streams (.simple assigns words redirects) (w, ⟨[], []⟩) =
        ((Run.command h streams (.simple assigns words redirects) w).1,
          (Run.command h streams (.simple assigns words redirects) w).2, c) ∧
      c.history = statuses.map .substitution ∧
      (Run.command h streams (.simple assigns words redirects) w).2.state.lastStatus =
        statuses.head?.getD w.state.lastStatus := by
  -- the status of the shell is the one noted last in a history to which only substitutions are added
  have hstart : Agrees w.state.lastStatus w ⟨[], []⟩ := ⟨rfl, trivial, nofun⟩
  have hmatches := follows_command h streams (.simple assigns words redirects) w ⟨[], []⟩ hstart
  obtain ⟨statuses, hstatuses⟩ := Substitutes.command h streams assigns words redirects (w, ⟨[], []⟩)
  rcases hobserved : Observed.command h streams (.simple assigns words redirects) (w, ⟨[], []⟩) with ⟨result, v, c⟩
  rw [hobserved] at hmatches hstatuses
  have hhistory : c.history = statuses.map .substitution := hstatuses.trans (List.append_nil _)
  have hstatus : v.state.lastStatus = noted w.state.lastStatus c.history := hmatches.agrees.status
  rw [hhistory, noted_substitutions] at hstatus
  have hsame : (result, v) = Run.command h streams (.simple assigns words redirects) w := hmatches.same
  refine ⟨statuses, c, ?_, hhistory, ?_⟩
  · rw [← hsame]
  · rw [← hsame]
    exact hstatus

/-! ## Commands without arguments -/

/-- Without arguments a command ends with 0, and a statement that it is alone as well. -/
theorem command_wordless
    (hprepared : Run.preparation h streams assigns words redirects w = (.ok ⟨[], assigned, .ok streams'⟩, w')) :
    (Run.command h streams (.simple assigns words redirects) w).1 = .ok 0 ∧
      ∀ text line, Run.andOr h streams (alone (.simple assigns words redirects) text line) w =
        Run.command h streams (.simple assigns words redirects) w := by
  have hrun : Run.command h streams (.simple assigns words redirects) w =
      (.ok 0, { w' with state := assigned.foldl (fun s row => s.set row.1 row.2) w'.state }) :=
    Run.command_of_preparation hprepared
  refine ⟨by rw [hrun], fun text line => ?_⟩
  rw [andOr_alone, hrun]
  rfl

/-- A command without arguments, whose redirections open, ends with 0, and so does a statement that it is alone:
that is the status of the last substitution, which was noted, exactly if this is 0. Only then does the statement end
as failures end it where they end a script. -/
theorem last_substitution_counts_iff
    (hprepared : Run.preparation h streams assigns words redirects w = (.ok ⟨[], assigned, .ok streams'⟩, w')) :
    ∃ (statuses : List Int) (v : World) (c : Chronicle),
      Observed.command h streams (.simple assigns words redirects) (w, ⟨[], []⟩) = (.ok 0, v, c) ∧
      c.history = statuses.map .substitution ∧
      Run.command h streams (.simple assigns words redirects) w = (.ok 0, v) ∧
      (∀ text line, Run.andOr h streams (alone (.simple assigns words redirects) text line) w = (.ok 0, v)) ∧
      ∀ last, statuses.head? = some last →
        v.state.lastStatus = last ∧
        ((Run.command h streams (.simple assigns words redirects) w).1 = .ok last ↔ last = 0) ∧
        ∀ text line, (Run.andOr h streams (alone (.simple assigns words redirects) text line) w).1 =
          (if last ≠ 0 ∧ w.state.failsOnError = true then .error (.exit last) else .ok last) ↔ last = 0 := by
  obtain ⟨hzero, halone⟩ := command_wordless hprepared
  obtain ⟨statuses, c, hobserved, hhistory, hstatus⟩ := exists_substitutions h streams assigns words redirects w
  rcases hrun : Run.command h streams (.simple assigns words redirects) w with ⟨result, v⟩
  simp only [hrun] at hzero halone hobserved hstatus
  subst hzero
  refine ⟨statuses, v, c, hobserved, hhistory, rfl, halone, fun last hlast => ?_⟩
  rw [hlast] at hstatus
  refine ⟨hstatus, ?_, fun text line => ?_⟩
  · rw [Except.ok.injEq, eq_comm]
  · rw [halone]
    by_cases hnone : last = 0
    · simp [hnone]
    · refine iff_of_false (fun hsame => ?_) hnone
      dsimp only at hsame
      split at hsame
      · cases hsame
      · exact hnone (Except.ok.inj hsame).symm

/-- `X=` and what some scripts write, one after the other. -/
def assigning (scripts : List Script) : Command := .simple [⟨"X", scripts.map fun s => .subst s false⟩] [] []

def falseScript : Script := [alone (.simple [] [[.literal "false" false]] []) "false" 1]

def trueScript : Script := [alone (.simple [] [[.literal "true" false]] []) "true" 1]

/-- A failing substitution does not matter if one that succeeds follows it. -/
theorem false_then_true_assigned :
    Script.ofString "X=$(false)$(true)" = .ok [alone (assigning [falseScript, trueScript]) "X=$(false)$(true)" 1] ∧
      sampleWorld.state.failsOnError = true ∧
      ∃ v c, Observed.command sampleHandlers sampleWorld.state.streams (assigning [falseScript, trueScript])
          (sampleWorld, ⟨[], []⟩) = (.ok 0, v, c) ∧ c.history = [.substitution 0, .substitution 1] ∧
        Run.andOr sampleHandlers sampleWorld.state.streams
          (alone (assigning [falseScript, trueScript]) "X=$(false)$(true)" 1) sampleWorld = (.ok 0, v) ∧
        v.state.lastStatus = 0 := by
  rcases hprepared : Run.preparation sampleHandlers sampleWorld.state.streams
    [⟨"X", [.subst falseScript false, .subst trueScript false]⟩] [] [] sampleWorld with ⟨result, w'⟩
  obtain rfl : result = .ok ⟨[], [("X", "")], .ok sampleWorld.state.streams⟩ :=
    (congrArg Prod.fst hprepared).symm.trans (by with_unfolding_all rfl)
  obtain ⟨statuses, v, c, hobserved, hhistory, -, halone, hlast⟩ := last_substitution_counts_iff hprepared
  have hcompleted : c.history = [.substitution 0, .substitution 1] := by
    have hwritten := congrArg (fun x => x.2.2.history) hobserved
    exact hwritten.symm.trans (by with_unfolding_all rfl)
  have hstatuses : statuses.map Event.substitution = [0, 1].map .substitution := hhistory.symm.trans hcompleted
  have hhead : statuses.head? = some 0 := by
    rw [(List.map_inj_right fun _ _ => Event.substitution.inj).1 hstatuses]
    rfl
  exact ⟨by with_unfolding_all rfl, rfl, v, c, hobserved, hcompleted, halone _ _, (hlast 0 hhead).1⟩

/-- A failing substitution is lost: where a failure ends a script, a script that assigns what it writes ends well. -/
theorem false_assigned :
    Script.ofString "X=$(false)" = .ok [alone (assigning [falseScript]) "X=$(false)" 1] ∧
      sampleWorld.state.failsOnError = true ∧
      (Observed.command sampleHandlers sampleWorld.state.streams (assigning [falseScript])
        (sampleWorld, ⟨[], []⟩)).2.2.history = [.substitution 1] ∧
      (Run.command sampleHandlers sampleWorld.state.streams (assigning [falseScript]) sampleWorld).1 = .ok 0 ∧
      (Run.script sampleHandlers [alone (assigning [falseScript]) "X=$(false)" 1] sampleWorld).1 = .ok () := by
  refine ⟨?_, rfl, ?_, ?_, ?_⟩ <;> with_unfolding_all rfl

end Taskwork.Shell
