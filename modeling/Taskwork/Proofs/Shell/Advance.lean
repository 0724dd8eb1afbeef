/-
Reading always advances. What a function of the parser reads from a position in the text on ends there
or further on, and in the text; a round of a loop that follows another one starts further on, and so does
a list of statements or the word of a default, seen from whatever it stands in. So calls nest no deeper
than the text is long, times the functions that can call each other at one position: reading ends on
every text, and nothing is asked for on the way that is not in the text.
-/
import Taskwork.Proofs.Shell.Courses
import Mathlib

namespace Taskwork.Shell

variable {text : List Char} {k k' : Call}

/-! ## Enough fuel -/

theorem unroll_eq {fuel : Nat} (hk : k.Stands text) (hfuel : k.weight text < fuel) :
    unroll text fuel k = some (told text k) := by
  induction fuel generalizing k with
  | zero => cases hfuel
  | succ fuel ih =>
    refine (Course.follows hk).run_eq fun k' hlead => ih hlead.stands ?_
    have := hlead.weight_lt
    omega

/-- An outcome is the one there is with enough fuel. -/
theorem eq_told_of_unroll {fuel : Nat} {r : Except SyntaxError (k.Answer × Nat)} (hk : k.Stands text)
    (h : unroll text fuel k = some r) : r = told text k := by
  induction fuel generalizing k with
  | zero => cases h
  | succ fuel ih => exact (Course.follows hk).of_run (fun k' x hlead => ih hlead.stands) h

/-! ## The calls that are made -/

theorem Calls.leads (hk : k.Stands text) (h : Calls text k k') : Leads text k k' := by
  obtain ⟨fuel, h⟩ := h
  exact (Course.follows hk).makes (fun _ _ hlead => eq_told_of_unroll hlead.stands) h

theorem Call.Again.rank_eq (h : k.Again k') : k.rank = k'.rank := by
  cases k <;> cases k' <;> first | rfl | cases h

/-- However deep a call is made in the course of another, it stands in the text and not before that one, and behind
it if it is nested. -/
theorem leads_of_transGen (hk : k.Stands text) (h : Relation.TransGen (Calls text) k k') :
    k'.Stands text ∧ k.pos ≤ k'.pos ∧ (k'.isNested = true → k.pos < k'.pos) := by
  induction h with
  | single h =>
    have hlead := h.leads hk
    exact ⟨hlead.stands, hlead.onward, hlead.nested⟩
  | tail _ h ih =>
    obtain ⟨hstands, hpos, -⟩ := ih
    have hlead := h.leads hstands
    exact ⟨hlead.stands, hpos.trans hlead.onward, fun hnested => hpos.trans_lt (hlead.nested hnested)⟩

/-! ## Reading -/

/-- How a call goes on in the text. -/
structure Advances (text : List Char) (k : Call) : Prop where
  /-- It has an outcome, for which fuel in proportion to the text is enough, and it is that of the running parser. -/
  ends : ∃ outcome, (∀ fuel, 8 * text.length + 8 ≤ fuel → unroll text fuel k = some outcome) ∧
    answer text k = outcome.map fun x => (x.1, place text x.2)
  within : ∀ fuel a m, unroll text fuel k = some (.ok (a, m)) → k.pos ≤ m ∧ m ≤ text.length
  round : ∀ k', Calls text k k' → k.Again k' → k.pos < k'.pos
  onward : ∀ k', Relation.TransGen (Calls text) k k' → k'.Stands text ∧ k.pos ≤ k'.pos
  nested : ∀ k', Relation.TransGen (Calls text) k k' → k'.isNested = true → k.pos < k'.pos

theorem advances (hk : k.Stands text) : Advances text k where
  ends := by
    have hrank := k.rank_lt
    refine ⟨told text k, fun fuel hfuel => unroll_eq hk (by unfold Call.weight; omega), ?_⟩
    obtain ⟨e, hread, htold⟩ | ⟨a, m, hread, htold, -, -⟩ := told_cases hk
    · rw [hread, htold]
      rfl
    · rw [hread, htold]
      rfl
  within fuel a m h := by
    have htold := eq_told_of_unroll hk h
    obtain ⟨e, -, htold'⟩ | ⟨a', m', -, htold', hpos, hm⟩ := told_cases hk
    · cases htold.trans htold'
    · cases htold.trans htold'
      exact ⟨hpos, hm⟩
  round k' h hagain := by
    rcases (h.leads hk).lower with hlower | hlower
    · exact hlower
    · exact absurd hlower (by rw [hagain.rank_eq]; exact Nat.lt_irrefl _)
  onward k' h := ⟨(leads_of_transGen hk h).1, (leads_of_transGen hk h).2.1⟩
  nested k' h := (leads_of_transGen hk h).2.2

/-- **The parser always advances**, from every position in a source at which one of its functions can be called; and
a script is what is read from the first one. -/
theorem Script.reading_advances (source : String) :
    (∀ k : Call, k.Stands source.toList → Advances source.toList k) ∧
      ∃ outcome, (∀ fuel, 8 * source.toList.length + 8 ≤ fuel →
          unroll source.toList fuel (.statements .endOfText 0) = some outcome) ∧
        Script.ofString source = outcome.map (·.1) := by
  refine ⟨fun k hk => advances hk, ?_⟩
  have hstart : (Call.statements .endOfText 0).Stands source.toList := Nat.zero_le _
  obtain ⟨outcome, hends, hread⟩ := (advances hstart).ends
  have hread : Parser.seen (Parser.statements .endOfText (.ofString source)) =
      outcome.map fun x => (x.1, place source.toList x.2) := hread
  refine ⟨outcome, hends, ?_⟩
  rw [Script.ofString_eq, hread]
  cases outcome <;> rfl

/-- The word of a default is read behind the dollar that it belongs to. -/
theorem defaultWord_behind_dollar :
    unroll "a $\x7bb:-c\x7d".toList 80 (.dollar false 2) =
        some (.ok (.param "b" (some [.literal "c" false]) false, 9)) ∧
      Calls "a $\x7bb:-c\x7d".toList (.dollar false 2) (.word true 7) ∧
      Advances "a $\x7bb:-c\x7d".toList (.dollar false 2) := by
  have hstands : (Call.dollar false 2).Stands "a $\x7bb:-c\x7d".toList := Nat.le_of_ble_eq_true rfl
  refine ⟨by cbv, ⟨20, ?_⟩, (Script.reading_advances "a $\x7bb:-c\x7d").1 _ hstands⟩
  exact Course.Makes.later (x := ("b", 5)) (by cbv) .here

end Taskwork.Shell
