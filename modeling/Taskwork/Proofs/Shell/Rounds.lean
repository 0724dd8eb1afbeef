/-
The loops of the parser, one round at a time. The gaps between words, commands and statements are read
in one piece, and the first stretch of a word is read apart from the rest of it; here they are given by
what comes first in them and the same from there on.
-/
import Taskwork.Proofs.Shell.Texts

namespace Taskwork.Shell

/-! ## Gaps -/

namespace Cursor

variable {c : Cursor} {x : Char} {r : List Char}

theorem skipWhile_cons {p : Char → Bool} (h : c.rest = x :: r) :
    c.skipWhile p = if p x then c.step.skipWhile p else c := by
  rw [skipWhile, skipWhile, rest_step h, h, List.takeWhile_cons]
  split <;> rfl

/-- A comment is what comes before the end of its line. -/
theorem gap_comment (cs : List Char) :
    gap (fun _ => false) true cs =
      (cs.takeWhile (· != '\n')).length + gap (fun _ => false) false (cs.dropWhile (· != '\n')) := by
  induction cs with
  | nil => rfl
  | cons x r ih =>
    rw [gap, List.takeWhile_cons, List.dropWhile_cons]
    by_cases hx : x = '\n'
    · subst hx
      rfl
    · rw [if_neg hx, ih, if_pos (bne_iff_ne.mpr hx), if_pos (bne_iff_ne.mpr hx), List.length_cons]
      omega

/-- A gap between words, and then another if something between statements follows. -/
theorem gap_between (between : Char → Bool) (comment : Bool) (cs : List Char) :
    gap between comment cs = gap (fun _ => false) comment cs +
      match cs.drop (gap (fun _ => false) comment cs) with
      | y :: r => if between y then 1 + gap between false r else 0
      | [] => 0 := by
  induction comment, cs using gap.induct (fun _ => false) with
  | case1 comment => cases comment <;> rfl
  | case2 r hb ih => cases hb
  | case3 r hb =>
    rw [gap, gap, if_pos rfl, if_pos rfl, if_neg hb, List.drop_zero, Nat.zero_add]
  | case4 x r hx ih =>
    rw [gap, if_neg hx, gap, if_neg hx, ih, Nat.add_comm 1 (gap _ true r), List.drop_succ_cons]
    omega
  | case5 r ih =>
    rw [gap, gap, ih, Nat.add_comm 2 (gap _ false r), List.drop_succ_cons, List.drop_succ_cons]
    omega
  | case6 r hx ih =>
    rw [gap_cons hx, gap_cons hx, if_pos rfl, if_pos rfl, ih, Nat.add_comm 1 (gap _ true r), List.drop_succ_cons]
    omega
  | case7 x r hx hsharp hskip ih =>
    have hblank : isBlank x = true := (Bool.or_false _).symm.trans hskip
    rw [gap_cons hx, gap_cons hx, if_neg hsharp, if_neg hsharp, if_pos hskip, hblank, Bool.true_or, if_pos rfl, ih,
      Nat.add_comm 1 (gap _ false r), List.drop_succ_cons]
    omega
  | case8 x r hx hsharp hskip =>
    have hblank : isBlank x = false := (Bool.or_false _).symm.trans (Bool.eq_false_iff.mpr hskip)
    rw [gap_cons hx, gap_cons hx, if_neg hsharp, if_neg hsharp, if_neg hskip, hblank, Bool.false_or, List.drop_zero,
      Nat.zero_add]

theorem skipBlanks_of_isBlank (h : c.rest = x :: r) (hx : isBlank x = true) : c.skipBlanks = c.step.skipBlanks := by
  have hslash : ∀ r', x = '\\' → r = '\n' :: r' → False := by
    rintro r' rfl
    cases hx
  have hsharp : x ≠ '#' := by
    rintro rfl
    cases hx
  rw [skipBlanks, h, gap_cons hslash, if_neg hsharp, hx, Bool.true_or, if_pos rfl, Nat.add_comm, advance, skipBlanks,
    rest_step h]

theorem skipBlanks_continuation (h : c.rest = '\\' :: '\n' :: r) : c.skipBlanks = c.step.step.skipBlanks := by
  rw [skipBlanks, h, gap, Nat.add_comm, advance, advance, skipBlanks, rest_step (rest_step h)]

theorem skipBlanks_comment (h : c.rest = '#' :: r) : c.skipBlanks = (c.skipWhile (· != '\n')).skipBlanks := by
  have hgap : gap (fun _ => false) false ('#' :: r) = gap (fun _ => false) true ('#' :: r) := by
    rw [gap_cons (by simp), if_pos rfl, gap, if_neg (by decide)]
  rw [skipBlanks, h, hgap, gap_comment, advance_add, skipBlanks, rest_skipWhile, h, skipWhile, h]

theorem skipBlanks_stop (h : c.rest = x :: r) (hx : isBlank x = false) (hslash : ¬ (x = '\\' ∧ r.head? = some '\n'))
    (hsharp : x ≠ '#') : c.skipBlanks = c := by
  have hslash' : ∀ r', x = '\\' → r = '\n' :: r' → False := by
    rintro r' rfl rfl
    exact hslash ⟨rfl, rfl⟩
  rw [skipBlanks, h, gap_cons hslash', if_neg hsharp, hx]
  rfl

/-- To the next statement, or to the next command: over blanks, and on if something between them follows. -/
theorem advance_gap (between : Char → Bool) (c : Cursor) :
    c.advance (gap between false c.rest) =
      if c.skipBlanks.rest.head?.any between then
        c.skipBlanks.step.advance (gap between false c.skipBlanks.step.rest)
      else c.skipBlanks := by
  rw [gap_between, advance_add]
  change c.skipBlanks.advance _ = _
  rw [← rest_advance]
  change c.skipBlanks.advance (match c.skipBlanks.rest with | y :: r => _ | [] => 0) = _
  cases hrest : c.skipBlanks.rest with
  | nil => rfl
  | cons y r =>
    rw [rest_step hrest, List.head?_cons, Option.any_some]
    dsimp only
    split
    · rw [Nat.add_comm, advance]
    · rfl

/-- No blank is next after the blanks. -/
theorem isBlank_of_skipBlanks (h : c.skipBlanks.rest = x :: r) : isBlank x = false := by
  by_contra hblank
  have hstep := skipBlanks_of_isBlank h (Bool.of_not_eq_false hblank)
  have hsize := c.skipBlanks.step.size_skipBlanks_le
  rw [← hstep, c.skipBlanks_skipBlanks] at hsize
  have := size_step h
  omega

end Cursor

/-! ## Commands -/

namespace Parser

/-- What is made of an item is not empty. -/
theorem isEmpty_onto (i : Item) (parts : Parts) :
    ((i.onto parts).1.isEmpty && (i.onto parts).2.1.isEmpty && (i.onto parts).2.2.isEmpty) = false := by
  obtain ⟨assigns, words, redirects⟩ := parts
  cases i
  · rfl
  · rw [show (Item.onto (.word _) (assigns, words, redirects)).2.1.isEmpty = false from rfl, Bool.and_false,
      Bool.false_and]
  · exact Bool.and_false _

/-- A simple command is made of its items, of which there must be one. -/
theorem passed_simple_items (c : Cursor) :
    passed (simple c) = do
      let ((assigns, words, redirects), f) ← seen (items false c)
      if assigns.isEmpty && words.isEmpty && redirects.isEmpty then fail c .missingCommand
      else return (.simple assigns words redirects, f) := by
  rw [passed_simple, seen_items, Bool.not_false]
  cases found (item? true c) with
  | error e => rfl
  | ok p =>
    obtain ⟨_ | ⟨i, e⟩, s⟩ := p
    · rfl
    · simp only [bind, Except.bind, Bool.false_or]
      split
      · rfl
      · exact (if_neg (Bool.eq_false_iff.mp (isEmpty_onto i _))).symm

/-- Where `<`, `>` or `&>` stands there is an operator. -/
theorem operatorAfter_ne_none {s : Cursor} {x : Char} {r : List Char}
    (hx : x = '<' ∨ x = '>' ∨ x = '&' ∧ r.head? = some '>') : operatorAfter [] s (x :: r) ≠ .ok none := by
  intro hnone
  unfold operatorAfter at hnone
  rcases hx with rfl | rfl | ⟨rfl, hr⟩
  · have hboth : ['&', '>'].isPrefixOf ('<' :: r) = false := rfl
    have hwrite : ['>'].isPrefixOf ('<' :: r) = false := rfl
    have hread : ['<'].isPrefixOf ('<' :: r) = true := rfl
    rw [hboth, hwrite, hread] at hnone
    simp only [Bool.false_eq_true, if_false, if_true, List.isEmpty_nil] at hnone
    split_ifs at hnone <;> cases hnone
  · have hboth : ['&', '>'].isPrefixOf ('>' :: r) = false := rfl
    have hwrite : ['>'].isPrefixOf ('>' :: r) = true := rfl
    rw [hboth, hwrite] at hnone
    simp only [Bool.false_eq_true, if_false, if_true, List.isEmpty_nil] at hnone
    split_ifs at hnone <;> cases hnone
  · obtain ⟨r, rfl⟩ := List.head?_eq_some_iff.mp hr
    have hboth : ['&', '>'].isPrefixOf ('&' :: '>' :: r) = true := rfl
    rw [hboth, if_pos rfl, if_neg (by decide)] at hnone
    split_ifs at hnone <;> cases hnone

theorem redirect_ne_none {c : Cursor} {x : Char} {r : List Char} (hrest : c.rest = x :: r)
    (hx : x = '<' ∨ x = '>' ∨ x = '&' ∧ r.head? = some '>') : passed? (redirect? c) ≠ .ok none := by
  intro h
  have hdigit : ¬ x.isDigit = true := by rcases hx with rfl | rfl | ⟨rfl, -⟩ <;> decide
  rw [passed?_redirect, passed?_redirectOperator, Cursor.skipWhile_cons hrest, hrest, List.takeWhile_cons,
    if_neg hdigit, if_neg hdigit, hrest] at h
  obtain ⟨_ | ⟨⟨fd, kind⟩, s⟩, hoperator, h⟩ := eq_ok_of_bind h
  · exact operatorAfter_ne_none hx hoperator
  · obtain ⟨⟨target, d⟩, hword, h⟩ := eq_ok_of_bind h
    dsimp only at h
    split_ifs at h <;> cases h

/-- Where a command goes on and no redirection starts, a word does. -/
theorem continues_of_redirect {c : Cursor} {x : Char} {r : List Char} (hrest : c.rest = x :: r)
    (hblank : Cursor.isBlank x = false) (hends : endsCommand x r = false) (hparen : x ≠ '(')
    (h : passed? (redirect? c) = .ok none) : continues false x = true := by
  have hoperator : ¬ (x = '<' ∨ x = '>' ∨ x = '&' ∧ r.head? = some '>') := fun hx => redirect_ne_none hrest hx h
  simp only [endsCommand, Bool.or_eq_false_iff, Bool.and_eq_false_iff, beq_eq_false_iff_ne,
    bne_eq_false_iff_eq] at hends
  simp only [continues, Cursor.isMeta, hblank, Bool.false_eq_true, if_false, Bool.not_eq_true', Bool.or_eq_false_iff,
    beq_eq_false_iff_ne]
  tauto

/-- What is an item of a command, if the command goes on: a redirection or a word. -/
theorem found_item_cons {leading : Bool} {c : Cursor} {x : Char} {r : List Char} (hc : c.skipBlanks.rest = x :: r)
    (hblank : Cursor.isBlank x = false) (hends : endsCommand x r = false) (hparen : x ≠ '(') :
    found (item? leading c) = do
      match ← passed? (redirect? c.skipBlanks) with
      | some (r, e) => return (some (.redirect r, e), c.skipBlanks)
      | none =>
        let (w, f) ← seen (word false c.skipBlanks)
        let i ← itemOf leading c.skipBlanks w
        return (some (i, f), c.skipBlanks) := by
  rw [found_item, hc]
  dsimp only
  rw [hends, beq_false_of_ne hparen, if_neg Bool.false_ne_true, if_neg Bool.false_ne_true]
  cases hredirect : passed? (redirect? c.skipBlanks) with
  | error e => rfl
  | ok o =>
    cases o with
    | some p => rfl
    | none =>
      have hx := continues_of_redirect hc hblank hends hparen hredirect
      simp only [bind, Except.bind, word_step hc hx]
      cases passed (piece c.skipBlanks) with
      | error e => rfl
      | ok p =>
        dsimp only
        cases seen (word false p.2) <;> rfl

end Parser

end Taskwork.Shell
