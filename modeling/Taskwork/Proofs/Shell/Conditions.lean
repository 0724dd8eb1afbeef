/-
What `test` says. How its arguments are read goes by their number, so that an operand is never taken for an
operator, whatever its text is. They are read so with one exception: a `!` in front is a negation even where it
is the left operand of a comparison, and what follows is then no test.
-/
import Taskwork.Proofs.Shell.Diagnostics
import Taskwork.Proofs.Shell.Variables

namespace Taskwork.Shell.Builtin

/-- A text that compares what stands before it with what comes after. -/
def IsComparison (op : String) : Prop := op = "=" ∨ op = "!="

instance (op : String) : Decidable (IsComparison op) := inferInstanceAs (Decidable (_ ∨ _))

/-- The arguments are some negations of a comparison whose left operand is a `!`. -/
def ComparesNegation (args : List String) : Prop :=
  ∃ n op right, IsComparison op ∧ args = List.replicate n "!" ++ ["!", op, right]

section

variable (fs : Files) (directory : String)

/-- What arguments say by the rules for their number; none if they say nothing. -/
def verdict : List String → Option Bool
  | [] => some false
  | [value] => some (!value.isEmpty)
  | [first, operand] =>
    if first = "!" then (verdict [operand]).map (!·) else unary fs directory first operand
  | [left, op, right] =>
    if op = "=" then some (left == right)
    else if op = "!=" then some (left != right)
    else if left = "!" then (verdict [op, right]).map (!·)
    else none
  | first :: rest => if first = "!" then (verdict rest).map (!·) else none

/-! ## How arguments are read -/

theorem evaluate_not (rest : List String) :
    evaluate fs directory ("!" :: rest) = (evaluate fs directory rest).map (!·) := by
  rw [evaluate]

variable {first : String} (hfirst : first ≠ "!")
include hfirst

theorem evaluate_one : evaluate fs directory [first] = some (!first.isEmpty) := by
  rw [evaluate]
  exact hfirst

theorem evaluate_two (operand : String) :
    evaluate fs directory [first, operand] = unary fs directory first operand := by
  rw [evaluate]
  exact hfirst

theorem evaluate_three (op right : String) : evaluate fs directory [first, op, right] =
    if op = "=" then some (first == right) else if op = "!=" then some (first != right) else none := by
  split
  · subst op
    rw [evaluate]
    exact hfirst
  · split
    · subst op
      rw [evaluate]
      exact hfirst
    · rw [evaluate] <;> simp_all

theorem evaluate_more (a b c : String) (rest : List String) :
    evaluate fs directory (first :: a :: b :: c :: rest) = none := by
  rw [evaluate] <;> simp_all

end

/-! ## Where a comparison is not read -/

namespace ComparesNegation

theorem not_of_length_lt {args : List String} (hlength : args.length < 3) : ¬ ComparesNegation args := by
  rintro ⟨n, op, right, -, rfl⟩
  simp at hlength

theorem cons_iff {first : String} {rest : List String} : ComparesNegation (first :: rest) ↔
    first = "!" ∧ ((∃ op right, IsComparison op ∧ rest = [op, right]) ∨ ComparesNegation rest) := by
  constructor
  · rintro ⟨n, op, right, hop, hargs⟩
    cases n with
    | zero =>
      obtain ⟨rfl, rfl⟩ := List.cons.inj hargs
      exact ⟨rfl, .inl ⟨op, right, hop, rfl⟩⟩
    | succ n =>
      obtain ⟨rfl, rfl⟩ := List.cons.inj hargs
      exact ⟨rfl, .inr ⟨n, op, right, hop, rfl⟩⟩
  · rintro ⟨rfl, ⟨op, right, hop, rfl⟩ | ⟨n, op, right, hop, rfl⟩⟩
    · exact ⟨0, op, right, hop, rfl⟩
    · exact ⟨n + 1, op, right, hop, rfl⟩

end ComparesNegation

variable (fs : Files) (directory : String)

theorem unary_comparison {op : String} (hop : IsComparison op) (operand : String) :
    unary fs directory op operand = none := by
  rcases hop with rfl | rfl <;> rfl

/-- After a negation a comparison operator is looked for in vain. -/
theorem evaluate_of_comparesNegation {args : List String} (h : ComparesNegation args) :
    evaluate fs directory args = none := by
  obtain ⟨n, op, right, hop, rfl⟩ := h
  induction n with
  | zero =>
    have hne : op ≠ "!" := by rcases hop with rfl | rfl <;> decide
    rw [List.replicate_zero, List.nil_append, evaluate_not, evaluate_two fs directory hne,
      unary_comparison fs directory hop]
    rfl
  | succ n ih =>
    rw [List.replicate_succ, List.cons_append, evaluate_not, ih]
    rfl

theorem verdict_three_of_not {op : String} (hop : ¬ IsComparison op) (left right : String) :
    verdict fs directory [left, op, right] =
      if left = "!" then (verdict fs directory [op, right]).map (!·) else none := by
  obtain ⟨heq, hne⟩ := not_or.1 hop
  conv_lhs => rw [verdict, if_neg heq, if_neg hne]

theorem verdict_more (first a b c : String) (rest : List String) : verdict fs directory (first :: a :: b :: c :: rest) =
    if first = "!" then (verdict fs directory (a :: b :: c :: rest)).map (!·) else none := by
  rw [verdict] <;> simp

theorem isSome_verdict_of_comparesNegation {args : List String} (h : ComparesNegation args) :
    (verdict fs directory args).isSome = true := by
  obtain ⟨n, op, right, hop, rfl⟩ := h
  induction n with
  | zero => rcases hop with rfl | rfl <;> rfl
  | succ n ih =>
    -- what follows the negation has three arguments at least
    obtain ⟨a, b, c, rest, hrest⟩ : ∃ a b c rest, List.replicate n "!" ++ ["!", op, right] = a :: b :: c :: rest := by
      rcases n with _ | _ | _ | n <;> exact ⟨_, _, _, _, rfl⟩
    rw [hrest] at ih
    rw [List.replicate_succ, List.cons_append, hrest, verdict_more, if_pos rfl, Option.isSome_map]
    exact ih

theorem evaluate_eq_verdict : ∀ {args : List String}, ¬ ComparesNegation args →
    evaluate fs directory args = verdict fs directory args
  | [], _ => rfl
  | [value], _ => by
    by_cases hvalue : value = "!"
    · subst hvalue
      rfl
    · exact evaluate_one fs directory hvalue
  | [first, operand], _ => by
    by_cases hfirst : first = "!"
    · subst hfirst
      rw [evaluate_not, evaluate_eq_verdict (ComparesNegation.not_of_length_lt (by simp))]
      rfl
    · rw [evaluate_two fs directory hfirst, verdict, if_neg hfirst]
  | [left, op, right], h => by
    by_cases hleft : left = "!"
    · subst hleft
      have hop : ¬ IsComparison op := fun hop => h (ComparesNegation.cons_iff.2 ⟨rfl, .inl ⟨op, right, hop, rfl⟩⟩)
      rw [evaluate_not, verdict_three_of_not fs directory hop, if_pos rfl,
        evaluate_eq_verdict (ComparesNegation.not_of_length_lt (by simp))]
    · rw [evaluate_three fs directory hleft, verdict, if_neg hleft]
  | first :: a :: b :: c :: rest, h => by
    rw [verdict_more]
    by_cases hfirst : first = "!"
    · subst hfirst
      rw [evaluate_not, if_pos rfl, evaluate_eq_verdict fun hrest => h (ComparesNegation.cons_iff.2 ⟨rfl, .inr hrest⟩)]
    · rw [evaluate_more fs directory hfirst, if_neg hfirst]

theorem evaluate_eq_verdict_iff (args : List String) :
    evaluate fs directory args = verdict fs directory args ↔ ¬ ComparesNegation args := by
  refine ⟨fun heq h => ?_, evaluate_eq_verdict fs directory⟩
  have hsome := isSome_verdict_of_comparesNegation fs directory h
  rw [← heq, evaluate_of_comparesNegation fs directory h] at hsome
  cases hsome

/-! ## The command -/

/-- Ends a test by what its arguments say. -/
def conclude (streams : Streams) : Option Bool → Act Int
  | some true => return 0
  | some false => return 1
  | none => fail "test" "unsupported expression" streams 2

theorem test_apply (args : List String) (streams : Streams) (w : World) :
    test args streams w = conclude streams (evaluate w.host.files w.state.directory args) w := by
  unfold test
  rw [Stateful.bind_ok (show Act.files w = (.ok w.host.files, w) from rfl),
    Stateful.bind_ok (show Act.state w = (.ok w.state, w) from rfl)]
  rcases evaluate w.host.files w.state.directory args with _ | _ | _ <;> rfl

/-- The exit status of a test by what its arguments say. -/
def statusOf : Option Bool → Int
  | some true => 0
  | some false => 1
  | none => 2

theorem statusOf_inj {said said' : Option Bool} (h : statusOf said = statusOf said') : said = said' := by
  revert said said'
  decide

theorem conclude_status (streams : Streams) (said : Option Bool) (w : World) :
    (conclude streams said w).1 = .ok (statusOf said) := by
  rcases said with _ | _ | _
  · exact congrArg Prod.fst (Speaks.fail_apply _ _ streams 2 w)
  · rfl
  · rfl

theorem conclude_inj {streams : Streams} {said said' : Option Bool} {w : World}
    (h : conclude streams said w = conclude streams said' w) : said = said' := by
  have hstatus := congrArg Prod.fst h
  rw [conclude_status, conclude_status] at hstatus
  exact statusOf_inj (Except.ok.inj hstatus)

/-- `test` ends by the rules for the number of its arguments exactly if these do not compare a `!`, which is no
test to it; and so does `[`. In particular the comparison of a text is one exactly if the text is not `!`. -/
theorem test_follows_count_iff (args : List String) (streams : Streams) (w : World) :
    (test args streams w = conclude streams (verdict w.host.files w.state.directory args) w ↔
      ¬ ComparesNegation args) ∧
    (ComparesNegation args → test args streams w = conclude streams none w) ∧
    bracket (args ++ ["]"]) streams = test args streams ∧
    ∀ a b, (test [a, "=", b] streams w).1 = .ok (if a = b then 0 else 1) ↔ a ≠ "!" := by
  refine ⟨?_, fun h => ?_, ?_, fun a b => ?_⟩
  · rw [test_apply, ← evaluate_eq_verdict_iff w.host.files w.state.directory]
    exact ⟨conclude_inj, fun h => h ▸ rfl⟩
  · rw [test_apply, evaluate_of_comparesNegation _ _ h]
  · unfold bracket
    simp
  · rw [test_apply, conclude_status]
    by_cases ha : a = "!"
    · subst ha
      have hnegation : ComparesNegation ["!", "=", b] := ⟨0, "=", b, .inl rfl, rfl⟩
      rw [evaluate_of_comparesNegation _ _ hnegation]
      refine iff_of_false (fun hstatus => ?_) fun hne => hne rfl
      have htwo : (2 : Int) = if "!" = b then 0 else 1 := Except.ok.inj hstatus
      split at htwo <;> cases htwo
    · rw [evaluate_three _ _ ha, if_pos rfl]
      refine iff_of_true ?_ ha
      by_cases hab : a = b
      · rw [if_pos hab, beq_iff_eq.2 hab]
        rfl
      · rw [if_neg hab, beq_false_of_ne hab]
        rfl

/-- `test ! = !` -/
def exclamations : Statement :=
  ⟨⟨false, [.simple [] [[.literal "test" false], [.literal "!" false], [.literal "=" false], [.literal "!" false]] []]⟩,
    [], "test ! = !", 1⟩

/-- A `!` is equal to itself, and to compare it is no test to the shell. -/
theorem exclamation_not_compared :
    Script.ofString "test ! = !" = .ok [exclamations] ∧
      verdict rootWorld.host.files "/" ["!", "=", "!"] = some true ∧
      (Run.script sampleHandlers [exclamations] rootWorld).2.state.lastStatus = 2 ∧
      (Run.script sampleHandlers [exclamations] rootWorld).2.host.stderr =
        Utf8.encode "test: unsupported expression\n" := by
  refine ⟨by with_unfolding_all rfl, rfl, by cbv, by cbv⟩

/-- Operands that are operators elsewhere are compared, and so are negated ones. -/
theorem operators_compared :
    ¬ ComparesNegation ["=", "=", "!"] ∧
      test ["=", "=", "!"] rootWorld.state.streams rootWorld = conclude rootWorld.state.streams (some false) rootWorld ∧
      ComparesNegation ["!", "!", "!=", "x"] ∧
      test ["!", "!", "!=", "x"] rootWorld.state.streams rootWorld = conclude rootWorld.state.streams none rootWorld ∧
      "-f" ≠ "!" ∧ (test ["-f", "=", "-f"] rootWorld.state.streams rootWorld).1 = .ok 0 := by
  have hcompared : ¬ ComparesNegation ["=", "=", "!"] := fun h => absurd (ComparesNegation.cons_iff.1 h).1 (by decide)
  have hnegated : ComparesNegation ["!", "!", "!=", "x"] := ⟨1, "!=", "x", .inr rfl, rfl⟩
  exact ⟨hcompared, (test_follows_count_iff _ rootWorld.state.streams rootWorld).1.2 hcompared, hnegated,
    (test_follows_count_iff _ _ _).2.1 hnegated, by decide, ((test_follows_count_iff [] _ _).2.2.2 "-f" "-f").2 (by decide)⟩

end Taskwork.Shell.Builtin
