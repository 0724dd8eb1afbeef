/-
The functions of the parser, each at a position: it does what the running parser does, and each call
made in its course is further on in the text, or at the same position of a function that comes later in
the order in which functions call each other there. A list of statements or the word of a default is
always further on.
-/
import Taskwork.Proofs.Shell.Following

namespace Taskwork.Shell

open Taskwork.Shell.Parser

/-! ## Where calls lead -/

namespace Call

/-- The order in which functions call each other at one position. -/
def rank : Call → Nat
  | span _ _ | quotation _ | dollar _ _ => 0
  | blanks _ | parameter _ | quoted _ _ | word _ _ | redirect _ => 1
  | linebreaks _ | separators _ | trailing _ | items _ _ | links _ | piped _ => 2
  | simple _ => 3
  | command _ => 4
  | pipeline _ => 5
  | andOr _ => 6
  | statements _ _ => 7

theorem rank_lt (k : Call) : k.rank < 8 := by
  cases k <;> exact Nat.le_of_ble_eq_true rfl

/-- How much fuel a call needs at most. -/
def weight (text : List Char) (k : Call) : Nat := 8 * (text.length - k.pos) + k.rank

end Call

/-- What is known of a call that is made in the course of another. -/
structure Leads (text : List Char) (k k' : Call) : Prop where
  stands : k'.Stands text
  onward : k.pos ≤ k'.pos
  lower : k.pos < k'.pos ∨ k'.rank < k.rank
  nested : k'.isNested = true → k.pos < k'.pos

namespace Leads

variable {text : List Char} {k k' : Call}

/-- A call further on. -/
theorem further (h : k.pos < k'.pos) (hk : k'.Stands text) : Leads text k k' :=
  ⟨hk, Nat.le_of_lt h, .inl h, fun _ => h⟩

/-- A call of a function that comes later in the order of functions. -/
theorem inner (h : k.pos ≤ k'.pos) (hk : k'.Stands text) (hrank : Nat.blt k'.rank k.rank = true)
    (hnested : k'.isNested = false) : Leads text k k' :=
  ⟨hk, h, .inr (Nat.le_of_ble_eq_true hrank), fun hn => absurd hn (Bool.eq_false_iff.mp hnested)⟩

theorem weight_lt (h : Leads text k k') : k'.weight text < k.weight text := by
  have hpos := h.stands.pos_le
  have hrank := k'.rank_lt
  have := h.onward
  unfold Call.weight
  rcases h.lower with hlower | hlower <;> omega

end Leads

variable {text : List Char} {n : Nat}

/-! ## Where answers end -/

theorem lt_of_answer {α : Type} {r : Except SyntaxError (Passed (place text n) α)} {a : α} {m : Nat}
    (h : passed r = .ok (a, place text m)) : n < m := by
  have := lt_of_passed h
  rw [size_place, size_place] at this
  omega

theorem lt_of_closed {closer : Closer} (hcloser : closer ≠ .endOfText) {script : Script} {m : Nat}
    (h : seen (statements closer (place text n)) = .ok (script, place text m)) : m < text.length := by
  have hsize := one_le_of_closed hcloser h
  rw [size_place] at hsize
  omega

theorem lt_of_redirect {a : Redirect} {m : Nat} (h : answer text (.redirect n) = .ok (some a, place text m)) :
    n < m := by
  have := lt_of_passed? (eq_of_orStay h).1
  rw [size_place, size_place] at this
  omega

theorem lt_of_word {d : Bool} {x : Char} {r : List Char} {w : Word} {m : Nat} (hrest : text.drop n = x :: r)
    (hx : continues d x = true) (h : answer text (.word d n) = .ok (w, place text m)) : n < m := by
  have hword := word_step ((rest_place text n).trans hrest) hx
  rw [answer, hword] at h
  obtain ⟨⟨parts, e⟩, hpiece, h⟩ := eq_ok_of_bind h
  obtain ⟨⟨more, f⟩, hmore, h⟩ := eq_ok_of_bind h
  cases h
  have hlt := lt_of_passed hpiece
  have hle := le_of_seen hmore
  rw [size_place] at hlt hle
  omega

/-! ## The functions -/

namespace Course

/-! ### Gaps -/

theorem follows_span (p : Char → Bool) (hn : n ≤ text.length) :
    (course text (.span p n)).Follows text (Leads text (.span p n)) (told text (.span p n)) := by
  rw [course, told, answer, rest_place]
  cases hrest : text.drop n with
  | nil =>
    refine .done ?_ hn
    rw [Cursor.skipWhile, rest_place, hrest]
    rfl
  | cons x r =>
    have hlt := lt_of_drop hrest
    rw [Cursor.skipWhile_cons ((rest_place text n).trans hrest), step_place, List.takeWhile_cons]
    dsimp only
    cases p x with
    | false => exact .done rfl hn
    | true =>
      refine Follows.past (k := .span p (n + 1)) (.further (Nat.lt_succ_self n) hlt) hlt rfl fun m hspan _ hm => ?_
      rw [rest_place, List.drop_add_one_eq_tail_drop, hrest]
      exact .done hspan hm

theorem follows_blanks (hn : n ≤ text.length) :
    (course text (.blanks n)).Follows text (Leads text (.blanks n)) (told text (.blanks n)) := by
  have hplace := rest_place text n
  rw [course, told, answer]
  cases hrest : text.drop n with
  | nil =>
    rw [hrest] at hplace
    exact .done (Cursor.skipBlanks_nil hplace) hn
  | cons x r =>
    have hlt := lt_of_drop hrest
    rw [hrest] at hplace
    dsimp only
    split_ifs with hblank hslash hsharp
    · rw [Cursor.skipBlanks_of_isBlank hplace hblank, step_place]
      exact .tail (k := .blanks (n + 1)) (.further (Nat.lt_succ_self n) hlt)
    · obtain ⟨rfl, hnewline⟩ := hslash
      obtain ⟨r, rfl⟩ := List.head?_eq_some_iff.mp hnewline
      have hlt' := lt_of_drop (drop_succ_of_drop hrest)
      rw [Cursor.skipBlanks_continuation hplace, step_place, step_place]
      exact .tail (k := .blanks (n + 2)) (.further (show n < n + 2 by omega) hlt')
    · subst hsharp
      rw [Cursor.skipBlanks_comment hplace]
      refine Follows.past (k := .span (· != '\n') n) (.inner (Nat.le_refl n) hn rfl rfl) hn rfl fun m hspan _ hm => ?_
      have hnm : n < m := by
        have hstep := Cursor.skipWhile_cons (p := (· != '\n')) hplace
        rw [if_pos (by decide), step_place, hspan] at hstep
        have hsize := Cursor.size_skipWhile_le (· != '\n') (place text (n + 1))
        rw [← hstep, size_place, size_place] at hsize
        omega
      rw [hspan]
      exact .tail (k := .blanks m) (.further hnm hm)
    · exact .done (Cursor.skipBlanks_stop hplace (Bool.eq_false_iff.mpr hblank) hslash hsharp) hn

theorem follows_linebreaks (hn : n ≤ text.length) :
    (course text (.linebreaks n)).Follows text (Leads text (.linebreaks n)) (told text (.linebreaks n)) := by
  rw [course, told, answer, Cursor.skipLinebreaks, Cursor.advance_gap]
  refine Follows.past (k := .blanks n) (.inner (Nat.le_refl n) hn rfl rfl) hn rfl fun m hblanks (hnm : n ≤ m) hm => ?_
  have hahead : startsAt text ['\n'] m = (text.drop m).head?.any (· == '\n') := by
    rw [startsAt_singleton]
    cases text.drop m <;> rfl
  dsimp only
  rw [hblanks, rest_place, hahead]
  split
  · rename_i hnewline
    have hlt := lt_of_any hnewline
    rw [step_place]
    exact .tail (k := .linebreaks (m + 1)) (.further (show n < m + 1 by omega) hlt)
  · exact .done rfl hm

theorem follows_separators (hn : n ≤ text.length) :
    (course text (.separators n)).Follows text (Leads text (.separators n)) (told text (.separators n)) := by
  rw [course, told, answer, Cursor.skipSeparators, Cursor.advance_gap]
  refine Follows.past (k := .blanks n) (.inner (Nat.le_refl n) hn rfl rfl) hn rfl fun m hblanks (hnm : n ≤ m) hm => ?_
  have hahead : (startsAt text ['\n'] m || startsAt text [';'] m) =
      (text.drop m).head?.any fun x => x == '\n' || x == ';' := by
    rw [startsAt_singleton, startsAt_singleton]
    cases text.drop m <;> rfl
  dsimp only
  rw [hblanks, rest_place, hahead]
  split
  · rename_i hseparator
    have hlt := lt_of_any hseparator
    rw [step_place]
    exact .tail (k := .separators (m + 1)) (.further (show n < m + 1 by omega) hlt)
  · exact .done rfl hm

/-! ### Words -/

theorem follows_parameter (hn : n ≤ text.length) :
    (course text (.parameter n)).Follows text (Leads text (.parameter n)) (told text (.parameter n)) := by
  rw [course, told, answer, parameterName_eq, rest_place, startsAt_singleton]
  by_cases hany : ((text.drop n).head? == some '?') = true
  · rw [if_pos hany, if_pos hany, step_place]
    obtain ⟨r, hr⟩ := List.head?_eq_some_iff.mp (beq_iff_eq.mp hany)
    exact .done rfl (lt_of_drop hr)
  rw [if_neg hany, if_neg hany]
  split
  · refine Follows.past (k := .span Cursor.isNameChar n) (.inner (Nat.le_refl n) hn rfl rfl) hn rfl
      fun m hspan _ hm => ?_
    rw [rest_place]
    exact .done hspan hm
  · exact .done rfl hn

/-- The rest of a quotation after something in it. -/
theorem follows_quoted_cons (start : Nat) {m : Nat} (hnm : n < m) (hm : m ≤ text.length) (part : Part) :
    (show Course (Word × Nat) from do
      let (more, f) ← Course.ask (.quoted start m)
      return (Word.cons part more, f)).Follows text (Leads text (.quoted start n)) (located text do
        let (more, f) ← seen (doubleQuoted (place text start) (place text m))
        return (Word.cons part more, f)) := by
  refine Follows.ask (k := .quoted start m) (.further hnm hm) hm fun more f _ _ hf => ?_
  exact .done rfl hf

theorem follows_quoted (start : Nat) :
    (course text (.quoted start n)).Follows text (Leads text (.quoted start n)) (told text (.quoted start n)) := by
  have hplace := rest_place text n
  rw [course, told, answer]
  cases hrest : text.drop n with
  | nil =>
    rw [hrest] at hplace
    rw [doubleQuoted_nil hplace]
    exact .fail start _
  | cons x r =>
    have hlt := lt_of_drop hrest
    have hnext := drop_succ_of_drop hrest
    rw [hrest] at hplace
    dsimp only
    by_cases hclose : x = '"'
    · subst hclose
      rw [if_pos rfl, doubleQuoted_close hplace, step_place]
      exact .done rfl hlt
    rw [if_neg hclose]
    by_cases hcontinuation : x = '\\' ∧ r.head? = some '\n'
    · obtain ⟨rfl, hr⟩ := hcontinuation
      obtain ⟨r, rfl⟩ := List.head?_eq_some_iff.mp hr
      have htwo := lt_of_drop hnext
      rw [if_pos ⟨rfl, rfl⟩, doubleQuoted_escape hplace, if_pos (by decide), step_place, step_place]
      exact .tail (k := .quoted start (n + 2)) (.further (show n < n + 2 by omega) htwo)
    rw [if_neg hcontinuation]
    by_cases hdollar : x = '$'
    · subst hdollar
      rw [if_pos rfl, doubleQuoted_dollar hplace]
      refine Follows.ask (k := .dollar true n) (.inner (Nat.le_refl n) hlt rfl rfl) hlt fun part e hpart _ he => ?_
      exact follows_quoted_cons start (lt_of_answer hpart) he part
    rw [if_neg hdollar]
    by_cases hbacktick : x = '\x60'
    · subst hbacktick
      rw [if_pos rfl, doubleQuoted_backtick hplace]
      exact .fail n _
    rw [if_neg hbacktick]
    by_cases hescape : x = '\\' ∧ r ≠ []
    · obtain ⟨rfl, hr⟩ := hescape
      obtain ⟨y, r, rfl⟩ := List.exists_cons_of_ne_nil hr
      have htwo := lt_of_drop hnext
      have hy : ¬ (y == '\n') = true := by simpa using hcontinuation
      rw [if_pos rfl, doubleQuoted_escape hplace, if_neg hy, step_place, step_place, List.head?_cons]
      dsimp only [Option.filter]
      by_cases hescapable : isEscapable y = true
      · rw [if_pos hescapable, if_pos hescapable]
        exact follows_quoted_cons start (show n < n + 2 by omega) htwo _
      · rw [if_neg hescapable, if_neg hescapable]
        exact follows_quoted_cons start (Nat.lt_succ_self n) hlt _
    · have hr : x = '\\' → r = [] := fun hx => Decidable.not_not.1 fun hne => hescape ⟨hx, hne⟩
      have hnone : (if x = '\\' then r.head?.filter isEscapable else none) = none := by
        split
        · rename_i hx
          rw [hr hx]
          rfl
        · rfl
      rw [hnone, doubleQuoted_plain hplace ⟨hclose, hdollar, hbacktick⟩ hr, step_place]
      exact follows_quoted_cons start (Nat.lt_succ_self n) hlt _

theorem follows_quotation (hn : n < text.length) :
    (course text (.quotation n)).Follows text (Leads text (.quotation n)) (told text (.quotation n)) := by
  rw [course, told, answer]
  refine Follows.ask (k := .quoted n (n + 1)) (.further (Nat.lt_succ_self n) hn) hn fun parts e _ _ he => ?_
  exact .done rfl he

theorem follows_dollar (quoted : Bool) (hn : n < text.length) :
    (course text (.dollar quoted n)).Follows text (Leads text (.dollar quoted n)) (told text (.dollar quoted n)) := by
  obtain ⟨y, t, hrest⟩ : ∃ y t, text.drop n = y :: t := ⟨_, _, List.drop_eq_getElem_cons hn⟩
  have hplace := (rest_place text n).trans hrest
  have hnext := drop_succ_of_drop hrest
  rw [course, told, answer, hnext]
  cases t with
  | nil =>
    rw [dollar_alone hplace (by simp), step_place]
    exact .done rfl hn
  | cons x r =>
    have htwo := lt_of_drop hnext
    dsimp only
    by_cases hbrace : x = '\x7b'
    · subst hbrace
      rw [if_pos rfl, dollar_brace hplace, step_place, step_place]
      refine Follows.past (k := .parameter (n + 2)) (.further (show n < n + 2 by omega) htwo) htwo rfl
        fun e hname (hne : n + 2 ≤ e) he => ?_
      rw [hname, rest_place]
      dsimp only
      generalize (parameterName (place text (n + 1 + 1))).value = name
      rw [startsAt_eq text (List.cons_ne_nil _ _), startsAt_eq text (List.cons_ne_nil _ _)]
      split_ifs with hempty hclose hdefault
      · exact .fail n _
      · rw [step_place]
        exact .done rfl (add_le_of_isPrefixOf he hclose)
      · have he' : e + 2 ≤ text.length := add_le_of_isPrefixOf he hdefault
        rw [step_place, step_place]
        refine Follows.ask (k := .word true (e + 2)) (.further (show n < e + 2 by omega) he') he'
          fun fallback f _ _ hf => ?_
        dsimp only
        rw [startsAt_eq text (List.cons_ne_nil _ _), rest_place]
        split_ifs with hend
        · rw [step_place]
          exact .done rfl (add_le_of_isPrefixOf hf hend)
        · exact .fail n _
      · exact .fail n _
    by_cases hparen : x = '('
    · subst hparen
      rw [if_neg (by decide), if_pos rfl, dollar_paren hplace]
      by_cases hdouble : (r.head? == some '(') = true
      · rw [if_pos hdouble, if_pos hdouble]
        exact .fail n _
      rw [if_neg hdouble, if_neg hdouble, step_place, step_place]
      refine Follows.ask (k := .statements .paren (n + 2)) (.further (show n < n + 2 by omega) htwo) htwo
        fun script e hscript _ he => ?_
      dsimp only
      rw [step_place]
      exact .done rfl (lt_of_closed (by decide) hscript)
    rw [if_neg hbrace, if_neg hparen]
    cases hx : startsParameter x with
    | true =>
      rw [if_pos rfl, dollar_name hplace hx, step_place]
      refine Follows.past (k := .parameter (n + 1)) (.further (Nat.lt_succ_self n) hn) hn rfl fun e hname _ he => ?_
      exact .done hname he
    | false =>
      rw [if_neg Bool.false_ne_true, dollar_alone hplace (by simp [*]), step_place]
      exact .done rfl hn

theorem follows_piece {ok : Call → Prop} {x : Char} {r : List Char} (hrest : text.drop n = x :: r)
    (hspan : ok (.span (· != '\'') (n + 1))) (hquotation : ok (.quotation n)) (hdollar : ok (.dollar false n)) :
    (pieceCourse text x n).Follows text ok (located text (passed (piece (place text n)))) := by
  have hlt := lt_of_drop hrest
  have hnext := drop_succ_of_drop hrest
  have hplace := (rest_place text n).trans hrest
  cases hx : isSpecial x with
  | false =>
    simp only [isSpecial, Bool.or_eq_false_iff, beq_eq_false_iff_ne] at hx
    obtain ⟨⟨⟨⟨hslash, hsingle⟩, hdouble⟩, hdollar⟩, hbacktick⟩ := hx
    rw [pieceCourse, if_neg hslash, if_neg hsingle, if_neg hdouble, if_neg hdollar, if_neg hbacktick,
      piece_plain hplace (by simp [isSpecial, *]), step_place]
    exact .done rfl hlt
  | true =>
    simp only [isSpecial, Bool.or_eq_true, beq_iff_eq] at hx
    obtain (((rfl | rfl) | rfl) | rfl) | rfl := hx
    · rw [pieceCourse, if_pos rfl, hnext]
      cases r with
      | nil =>
        rw [piece_backslash hplace, step_place]
        exact .done rfl hlt
      | cons y r =>
        have htwo := lt_of_drop hnext
        dsimp only
        by_cases hy : y = '\n'
        · subst hy
          rw [if_pos rfl, piece_continuation hplace, step_place, step_place]
          exact .done rfl htwo
        · rw [if_neg hy, piece_escape hplace hy, step_place, step_place]
          exact .done rfl htwo
    · rw [pieceCourse, if_neg (by decide), if_pos rfl, piece_single hplace, passed_singleQuoted, step_place]
      refine Follows.past (k := .span (· != '\'') (n + 1)) hspan hlt rfl fun m hclose _ hm => ?_
      rw [hclose, rest_place, rest_place]
      dsimp only
      by_cases hend : text.length ≤ m
      · rw [if_pos hend, if_pos (by rw [List.drop_of_length_le hend]; rfl)]
        exact .fail n _
      · rw [if_neg hend, if_neg (by simpa using hend), step_place]
        exact .done rfl (by omega)
    · rw [pieceCourse, if_neg (by decide), if_neg (by decide), if_pos rfl, piece_double hplace, step_place]
      exact .tail (k := .quotation n) hquotation
    · rw [pieceCourse, if_neg (by decide), if_neg (by decide), if_neg (by decide), if_pos rfl, piece_dollar hplace]
      refine Follows.ask (k := .dollar false n) hdollar hlt fun part e _ _ he => ?_
      exact .done rfl he
    · rw [pieceCourse, if_neg (by decide), if_neg (by decide), if_neg (by decide), if_neg (by decide), if_pos rfl,
        piece_backtick hplace]
      exact .fail n _

theorem follows_word (inDefault : Bool) (hn : n ≤ text.length) :
    (course text (.word inDefault n)).Follows text (Leads text (.word inDefault n))
      (told text (.word inDefault n)) := by
  have hplace := rest_place text n
  rw [course, told, answer]
  cases hrest : text.drop n with
  | nil =>
    rw [hrest] at hplace
    rw [word_nil hplace]
    exact .done rfl hn
  | cons x r =>
    have hlt := lt_of_drop hrest
    rw [hrest] at hplace
    dsimp only
    by_cases hx : continues inDefault x = true
    · rw [if_pos hx, word_step hplace hx]
      refine (follows_piece hrest (.further (Nat.lt_succ_self n) hlt) (.inner (Nat.le_refl n) hlt rfl rfl)
        (.inner (Nat.le_refl n) hlt rfl rfl)).located fun parts e hpiece => ?_
      have hne := lt_of_passed hpiece
      obtain ⟨m, rfl, -, hm⟩ :=
        exists_place text hn ((moves_piece (n := 0) (closedBy_nil _) (.refl _)).within hpiece).2
      rw [size_place, size_place] at hne
      refine ⟨m, rfl, hm, ?_⟩
      refine Follows.ask (k := .word inDefault m) (.further (show n < m by omega) hm) hm fun more f _ _ hf => ?_
      exact .done rfl hf
    · rw [if_neg hx, word_stop hplace (Bool.eq_false_iff.mpr hx)]
      exact .done rfl hn

/-! ### Commands -/

theorem descriptorBefore?_getD (digits : List Char) (d : Nat) :
    (if digits.isEmpty then some d else descriptor? digits) = (descriptorBefore? digits).map (·.getD d) := by
  unfold descriptorBefore?
  cases digits with
  | nil => rfl
  | cons y ds =>
    rw [List.isEmpty_cons, if_neg Bool.false_ne_true, if_neg Bool.false_ne_true]
    cases descriptor? (y :: ds) <;> rfl

theorem isPrefixOf_pair (x y : Char) (r : List Char) : [x, y].isPrefixOf (x :: r) = (r.head? == some y) := by
  cases r <;> simp [List.isPrefixOf, Bool.beq_comm]

/-- An operator that was read. -/
theorem follows_read {ok : Call → Prop} (a : Nat × RedirectKind) {m : Nat} (hm : m ≤ text.length) :
    (Course.done (some a, m)).Follows text ok (located text (orStay (place text n) (.ok (some (a, place text m))))) :=
  .done rfl hm

theorem follows_output {ok : Call → Prop} {digits r : List Char} {fd : Option Nat}
    (hfd : descriptorBefore? digits = some fd) (hrest : text.drop n = '>' :: r) :
    (outputCourse text (fd.getD 1) n).Follows text ok
      (located text (orStay (place text n) (operatorAfter digits (place text n) ('>' :: r)))) := by
  have hnext := drop_succ_of_drop hrest
  have hboth : ['&', '>'].isPrefixOf ('>' :: r) = false := rfl
  have halone : ['>'].isPrefixOf ('>' :: r) = true := rfl
  have htwo {y : Char} (hy : r.head? = some y) : n + 2 ≤ text.length := by
    obtain ⟨r, rfl⟩ := List.head?_eq_some_iff.mp hy
    exact lt_of_drop hnext
  unfold outputCourse operatorAfter
  simp only [startsAt_singleton, hnext, hboth, halone, descriptorBefore?_getD, hfd, Option.map_some, isPrefixOf_pair,
    Bool.false_eq_true, if_false, if_true, beq_iff_eq, step_place]
  split_ifs with happend hduplicate hclobber
  · exact follows_read _ (htwo happend)
  · exact follows_read _ (htwo hduplicate)
  · exact follows_read _ (htwo hclobber)
  · exact follows_read _ (lt_of_drop hrest)

theorem follows_input {ok : Call → Prop} {digits r : List Char} {fd : Option Nat}
    (hfd : descriptorBefore? digits = some fd) (hrest : text.drop n = '<' :: r) :
    (inputCourse text (fd.getD 0) n).Follows text ok
      (located text (orStay (place text n) (operatorAfter digits (place text n) ('<' :: r)))) := by
  have hnext := drop_succ_of_drop hrest
  have hboth : ['&', '>'].isPrefixOf ('<' :: r) = false := rfl
  have hwrite : ['>'].isPrefixOf ('<' :: r) = false := rfl
  have halone : ['<'].isPrefixOf ('<' :: r) = true := rfl
  unfold inputCourse operatorAfter
  simp only [startsAt_singleton, hnext, hboth, hwrite, halone, descriptorBefore?_getD, hfd, Option.map_some,
    isPrefixOf_pair, Bool.false_eq_true, if_false, if_true, beq_iff_eq, step_place]
  split_ifs
  · exact .fail (n + 1) _
  · exact .fail (n + 1) _
  · exact follows_read _ (lt_of_drop hrest)

theorem operatorAfter_bad {digits r : List Char} {s : Cursor} {x : Char} (hx : x = '>' ∨ x = '<')
    (hfd : descriptorBefore? digits = none) : operatorAfter digits s (x :: r) = Parser.fail s .badDescriptor := by
  unfold operatorAfter
  rw [descriptorBefore?_getD, descriptorBefore?_getD, hfd]
  rcases hx with rfl | rfl <;> rfl

theorem follows_operator {ok : Call → Prop} (digits : List Char) (hn : n ≤ text.length) :
    (operatorCourse text digits n).Follows text ok
      (located text (orStay (place text n) (operatorAfter digits (place text n) (text.drop n)))) := by
  have hnone : (Course.done (none, n)).Follows text ok
      (located text (orStay (α := Nat × RedirectKind) (place text n) (.ok none))) := .done rfl hn
  unfold operatorCourse
  rw [startsAt_singleton, startsAt_singleton, startsAt_eq text (List.cons_ne_nil _ _)]
  by_cases hwrite : (text.drop n).head? = some '>'
  · obtain ⟨r, hrest⟩ := List.head?_eq_some_iff.mp hwrite
    have hboth : ['&', '>'].isPrefixOf ('>' :: r) = false := rfl
    rw [hwrite, hrest, hboth, beq_self_eq_true, Bool.or_true, Bool.not_true, Bool.and_false,
      if_neg Bool.false_ne_true]
    cases hfd : descriptorBefore? digits with
    | none =>
      rw [operatorAfter_bad (.inl rfl) hfd]
      exact .fail n _
    | some fd => exact follows_output hfd hrest
  by_cases hread : (text.drop n).head? = some '<'
  · obtain ⟨r, hrest⟩ := List.head?_eq_some_iff.mp hread
    have hboth : ['&', '>'].isPrefixOf ('<' :: r) = false := rfl
    have hout : (some '<' == some '>') = false := rfl
    rw [hread, hrest, hboth, hout, beq_self_eq_true, Bool.true_or, Bool.not_true, Bool.and_false,
      if_neg Bool.false_ne_true]
    cases hfd : descriptorBefore? digits with
    | none =>
      rw [operatorAfter_bad (.inr rfl) hfd]
      exact .fail n _
    | some fd => exact follows_input hfd hrest
  have hout : ((text.drop n).head? == some '>') = false := beq_eq_false_iff_ne.mpr hwrite
  have hin : ((text.drop n).head? == some '<') = false := beq_eq_false_iff_ne.mpr hread
  simp only [operatorAfter, isPrefixOf_singleton, hout, hin, Bool.or_false, Bool.not_false, Bool.and_true,
    Bool.false_eq_true, if_false]
  cases digits with
  | cons y ds =>
    simp only [List.isEmpty_cons, Bool.not_false, if_true, ite_self]
    exact hnone
  | nil =>
    by_cases hboth : ['&', '>'].isPrefixOf (text.drop n) = true
    · obtain ⟨r, hr⟩ := List.isPrefixOf_iff_prefix.mp hboth
      have hrest : text.drop n = '&' :: '>' :: r := hr.symm
      have hnext := drop_succ_of_drop hrest
      have hhere : ['&', '>'].isPrefixOf ('&' :: '>' :: r) = true := rfl
      have hahead : ['&', '>', '>'].isPrefixOf ('&' :: '>' :: r) = (r.head? == some '>') := by
        cases r <;> simp [List.isPrefixOf, Bool.beq_comm]
      simp only [List.isEmpty_nil, Bool.not_true, Bool.false_eq_true, if_false, descriptorBefore?, if_true, hrest,
        hhere, hahead, startsAt_singleton, drop_succ_of_drop hnext, step_place]
      split_ifs
      · exact .fail (n + 2) _
      · exact follows_read _ (lt_of_drop hnext)
    · simp only [List.isEmpty_nil, Bool.not_true, Bool.false_eq_true, if_false, descriptorBefore?, if_true, hboth]
      exact hnone

theorem follows_redirect (hn : n ≤ text.length) :
    (course text (.redirect n)).Follows text (Leads text (.redirect n)) (told text (.redirect n)) := by
  rw [course, told, answer]
  refine Follows.past (k := .span Char.isDigit n) (.inner (Nat.le_refl n) hn rfl rfl) hn rfl
    fun s hdigits (hns : n ≤ s) hs => ?_
  have hoperator := passed?_redirectOperator (place text n)
  rw [hdigits, rest_place, rest_place] at hoperator
  rw [passed?_redirect, hoperator, rest_place, bind_eq_orStay (place text s), orStay_bind]
  refine (follows_operator _ hs).located fun operator e hread => ?_
  obtain ⟨hread, hstay⟩ := eq_of_orStay hread
  cases operator with
  | none => exact ⟨s, hstay rfl, hs, .done rfl hn⟩
  | some operator =>
    obtain ⟨fd, kind⟩ := operator
    rw [← hoperator] at hread
    have hwithin := ((moves_redirectOperator? (n := 0) (closedBy_nil _) (.refl _)).within hread _ rfl).2
    have hlt := lt_of_passed? hread
    obtain ⟨o, rfl, hno, ho⟩ := exists_place text hn hwithin
    rw [size_place, size_place] at hlt
    refine ⟨o, rfl, ho, ?_⟩
    refine Follows.past (k := .blanks o) (.further (show n < o by omega) ho) ho rfl fun t hblanks (hot : o ≤ t) ht => ?_
    dsimp only [Option.map_some]
    rw [hblanks, orStay_bind]
    refine Follows.ask (k := .word false t) (.further (show n < t by omega) ht) ht fun target e _ _ he => ?_
    dsimp only
    split_ifs
    · exact .fail t _
    · exact .fail t _
    · exact .done rfl he

/-- The items of a command after one of them. -/
theorem follows_onto {named : Bool} (named' : Bool) (i : Item) {e : Nat} (hne : n < e) (he : e ≤ text.length) :
    (show Course (Parts × Nat) from do
      let (parts, f) ← Course.ask (.items named' e)
      return (i.onto parts, f)).Follows text (Leads text (.items named n)) (located text do
        let (parts, f) ← seen (items named' (place text e))
        return (i.onto parts, f)) := by
  refine Follows.ask (k := .items named' e) (.further hne he) he fun parts f _ _ hf => ?_
  exact .done rfl hf

theorem follows_items (named : Bool) (hn : n ≤ text.length) :
    (course text (.items named n)).Follows text (Leads text (.items named n)) (told text (.items named n)) := by
  rw [course, told, answer, seen_items]
  refine Follows.past (k := .blanks n) (.inner (Nat.le_refl n) hn rfl rfl) hn rfl fun s hblanks (hns : n ≤ s) hs => ?_
  have hplace := rest_place text s
  rw [← hblanks] at hplace
  dsimp only
  cases hrest : text.drop s with
  | nil =>
    rw [found_item, hplace, hrest, hblanks]
    exact .done rfl hs
  | cons x r =>
    rw [hrest] at hplace
    dsimp only
    by_cases hends : endsCommand x r = true
    · rw [found_item, hplace, hblanks, if_pos hends]
      dsimp only
      rw [if_pos hends]
      exact .done rfl hs
    by_cases hparen : x = '('
    · rw [found_item, hplace, hblanks, if_neg hends, if_pos hparen]
      dsimp only
      rw [if_neg hends, if_pos (beq_iff_eq.mpr hparen)]
      exact .fail s _
    have hblank := Cursor.isBlank_of_skipBlanks hplace
    rw [if_neg hends, if_neg hparen, found_item_cons hplace hblank (Bool.eq_false_iff.mpr hends) hparen, hblanks,
      bind_eq_orStay (place text s), bind_assoc]
    refine Follows.ask (k := .redirect s) (.inner hns hs rfl rfl) hs fun redirect b hredirect _ hb => ?_
    cases redirect with
    | some redirect =>
      have hsb := lt_of_redirect hredirect
      cases named <;> exact follows_onto _ (.redirect redirect) (Nat.lt_of_le_of_lt hns hsb) hb
    | none =>
      obtain ⟨hnone, hstay⟩ := eq_of_orStay hredirect
      obtain rfl := place_inj text hb hs (hstay rfl)
      have hx := continues_of_redirect (hblanks ▸ hplace) hblank (Bool.eq_false_iff.mpr hends) hparen hnone
      dsimp only [Option.map_none]
      rw [bind_assoc]
      refine Follows.ask (k := .word false b) (.inner hns hs rfl rfl) hs fun w e hword _ he => ?_
      have hbe := lt_of_word hrest hx hword
      have hne := Nat.lt_of_le_of_lt hns hbe
      cases named with
      | true => exact follows_onto true (.word w) hne he
      | false =>
        dsimp only [Bool.not_false, itemOf, reserved?, Bool.false_eq_true, if_false, if_true]
        cases assignment? w with
        | some a => exact follows_onto false (.assign a) hne he
        | none =>
          cases Word.plain? w with
          | none => exact follows_onto true (.word w) hne he
          | some t =>
            dsimp only [Option.filter]
            by_cases hreserved : reservedWords.contains t = true
            · rw [if_pos hreserved, if_pos hreserved]
              exact .fail b _
            · rw [if_neg hreserved, if_neg hreserved]
              exact follows_onto true (.word w) hne he

theorem follows_simple (hn : n ≤ text.length) :
    (course text (.simple n)).Follows text (Leads text (.simple n)) (told text (.simple n)) := by
  rw [course, told, answer, passed_simple_items]
  refine Follows.ask (k := .items false n) (.inner (Nat.le_refl n) hn rfl rfl) hn fun parts e _ _ he => ?_
  obtain ⟨assigns, words, redirects⟩ := parts
  dsimp only
  split
  · exact .fail n _
  · exact .done rfl he

theorem follows_trailing (hn : n ≤ text.length) :
    (course text (.trailing n)).Follows text (Leads text (.trailing n)) (told text (.trailing n)) := by
  rw [course, told, answer, seen_trailing]
  refine Follows.past (k := .blanks n) (.inner (Nat.le_refl n) hn rfl rfl) hn rfl fun s hblanks (hns : n ≤ s) hs => ?_
  rw [hblanks, bind_eq_orStay (place text s)]
  refine Follows.ask (k := .redirect s) (.inner hns hs rfl rfl) hs fun first e hfirst _ he => ?_
  cases first with
  | none => exact .done ((eq_of_orStay hfirst).2 rfl).symm he
  | some first =>
    have hse := lt_of_redirect hfirst
    refine Follows.ask (k := .trailing e) (.further (show n < e by omega) he) he fun more f _ _ hf => ?_
    exact .done rfl hf

/-- A list of statements in a command, and the redirections after it. -/
theorem follows_closed {closer : Closer} (hcloser : closer ≠ .endOfText) (make : Script → List Redirect → Command)
    {s : Nat} (hns : n ≤ s) (hs : s < text.length) :
    (show Course (Command × Nat) from do
      let (script, e) ← Course.ask (.statements closer (s + 1))
      let (redirects, f) ← Course.ask (.trailing (e + 1))
      return (make script redirects, f)).Follows text (Leads text (.command n)) (located text do
        let (script, e) ← seen (statements closer (place text (s + 1)))
        let (redirects, f) ← seen (trailing e.step)
        return (make script redirects, f)) := by
  refine Follows.ask (k := .statements closer (s + 1)) (.further (show n < s + 1 by omega) hs) hs
    fun script e hscript (hse : s + 1 ≤ e) he => ?_
  have he' := lt_of_closed hcloser hscript
  dsimp only
  rw [step_place]
  refine Follows.ask (k := .trailing (e + 1)) (.further (show n < e + 1 by omega) he') he'
    fun redirects f _ _ hf => ?_
  exact .done rfl hf

theorem follows_command (hn : n ≤ text.length) :
    (course text (.command n)).Follows text (Leads text (.command n)) (told text (.command n)) := by
  rw [course, told, answer]
  refine Follows.past (k := .blanks n) (.inner (Nat.le_refl n) hn rfl rfl) hn rfl fun s hblanks (hns : n ≤ s) hs => ?_
  have hrest := rest_place text s
  rw [← hblanks] at hrest
  dsimp only
  rw [startsAt_singleton, startsAt_singleton]
  by_cases hparen : (text.drop s).head? = some '('
  · obtain ⟨r, hr⟩ := List.head?_eq_some_iff.mp hparen
    rw [passed_command_subshell (hrest.trans hr), drop_succ_of_drop hr, if_pos (beq_iff_eq.mpr hparen), hblanks,
      step_place]
    split
    · exact .fail s _
    · exact follows_closed (by decide) .subshell hns (lt_of_drop hr)
  rw [if_neg (by simpa using hparen)]
  by_cases hbrace : (place text s).atLone '\x7b' = true
  · have hone := one_le_of_atLone hbrace
    rw [size_place] at hone
    rw [if_pos hbrace, passed_command_group (hblanks ▸ hbrace), hblanks, step_place]
    exact follows_closed (by decide) .group hns (by omega)
  · rw [if_neg hbrace, passed_command_simple (hrest ▸ hparen) (hblanks ▸ Bool.eq_false_iff.mpr hbrace), hblanks]
    exact .tail (k := .simple s) (.inner hns hs rfl rfl)

/-! ### Lists -/

theorem follows_piped (hn : n ≤ text.length) :
    (course text (.piped n)).Follows text (Leads text (.piped n)) (told text (.piped n)) := by
  rw [course, told, answer, seen_piped]
  refine Follows.past (k := .blanks n) (.inner (Nat.le_refl n) hn rfl rfl) hn rfl fun s hblanks (hns : n ≤ s) hs => ?_
  rw [hblanks]
  dsimp only
  cases hpipe : atPipe (place text s) with
  | false => exact .done rfl hs
  | true =>
    have hone := one_le_of_atPipe hpipe
    rw [size_place] at hone
    have hs' : s + 1 ≤ text.length := by omega
    rw [if_pos rfl, if_pos rfl, step_place]
    refine Follows.past (k := .linebreaks (s + 1)) (.further (show n < s + 1 by omega) hs') hs' rfl
      fun p hbreaks (hsp : s + 1 ≤ p) hp => ?_
    rw [hbreaks]
    refine Follows.ask (k := .command p) (.further (show n < p by omega) hp) hp fun next e _ (hpe : p ≤ e) he => ?_
    refine Follows.ask (k := .piped e) (.further (show n < e by omega) he) he fun more f _ _ hf => ?_
    exact .done rfl hf

/-- The position of the first command of a pipeline. -/
theorem afterBang_place {s : Nat} (hs : s ≤ text.length) :
    ∃ b, (if (place text s).atLone '!' then s + 1 else s) = b ∧ afterBang (place text s) = place text b ∧ s ≤ b ∧
      b ≤ text.length := by
  unfold afterBang
  split
  · rename_i hbang
    have hsize := one_le_of_atLone hbang
    rw [size_place] at hsize
    exact ⟨s + 1, rfl, step_place text s, by omega, by omega⟩
  · exact ⟨s, rfl, rfl, Nat.le_refl s, hs⟩

theorem follows_pipeline (hn : n ≤ text.length) :
    (course text (.pipeline n)).Follows text (Leads text (.pipeline n)) (told text (.pipeline n)) := by
  rw [course, told, answer, passed_pipeline]
  refine Follows.past (k := .blanks n) (.inner (Nat.le_refl n) hn rfl rfl) hn rfl fun s hblanks (hns : n ≤ s) hs => ?_
  obtain ⟨b, hbang, hplace, hsb, hb⟩ := afterBang_place hs
  rw [hblanks, hplace]
  dsimp only
  rw [hbang]
  refine Follows.ask (k := .command b) (.inner (Nat.le_trans hns hsb) hb rfl rfl) hb
    fun first e hfirst (hbe : b ≤ e) he => ?_
  refine Follows.ask (k := .piped e) (.inner (show n ≤ e by omega) he rfl rfl) he fun more f _ hef hf => ?_
  exact .done rfl hf

theorem follows_links (hn : n ≤ text.length) :
    (course text (.links n)).Follows text (Leads text (.links n)) (told text (.links n)) := by
  rw [course, told, answer, seen_links]
  refine Follows.past (k := .blanks n) (.inner (Nat.le_refl n) hn rfl rfl) hn rfl fun s hblanks (hns : n ≤ s) hs => ?_
  rw [hblanks]
  dsimp only
  cases hconnector : connector? (place text s) with
  | none => exact .done rfl hs
  | some connector =>
    have htwo := two_le_of_connector hconnector
    rw [size_place] at htwo
    have hs' : s + 2 ≤ text.length := by omega
    rw [step_place, step_place]
    refine Follows.past (k := .linebreaks (s + 2)) (.further (show n < s + 2 by omega) hs') hs' rfl
      fun p hbreaks (hsp : s + 2 ≤ p) hp => ?_
    rw [hbreaks]
    refine Follows.ask (k := .pipeline p) (.further (show n < p by omega) hp) hp fun next e _ (hpe : p ≤ e) he => ?_
    refine Follows.ask (k := .links e) (.further (show n < e by omega) he) he fun more f _ _ hf => ?_
    exact .done rfl hf

theorem follows_andOr (hn : n ≤ text.length) :
    (course text (.andOr n)).Follows text (Leads text (.andOr n)) (told text (.andOr n)) := by
  rw [course, told, answer, passed_andOr]
  refine Follows.ask (k := .pipeline n) (.inner (Nat.le_refl n) hn rfl rfl) hn fun first s hfirst hns hs => ?_
  refine Follows.ask (k := .links s) (.inner hns hs rfl rfl) hs fun rest e _ hse he => ?_
  exact .done rfl he

theorem follows_statements (closer : Closer) (hn : n ≤ text.length) :
    (course text (.statements closer n)).Follows text (Leads text (.statements closer n))
      (told text (.statements closer n)) := by
  rw [course, told, answer, seen_statements]
  refine Follows.past (k := .separators n) (.inner (Nat.le_refl n) hn rfl rfl) hn rfl fun s hskip (hns : n ≤ s) hs => ?_
  rw [hskip]
  dsimp only
  by_cases hclosed : closer.holdsAt (place text s) = true
  · rw [if_pos hclosed, if_pos hclosed]
    exact .done rfl hs
  rw [if_neg hclosed, if_neg hclosed, rest_place]
  by_cases hend : text.length ≤ s
  · rw [if_pos hend, if_pos (by rw [List.drop_of_length_le hend]; rfl)]
    exact .fail s _
  have hmore : ¬ (text.drop s).isEmpty = true := by simpa using hend
  rw [if_neg hend, if_neg hmore]
  refine Follows.ask (k := .andOr s) (.inner hns hs rfl rfl) hs fun list e hlist _ he => ?_
  have hse := lt_of_answer hlist
  refine ⟨Nat.le_of_lt hse, he, hs, ?_⟩
  refine Follows.past (k := .blanks e) (.further (show n < e by omega) he) he rfl fun b hblanks (heb : e ≤ b) hb => ?_
  rw [hblanks, rest_place]
  dsimp only
  cases endsStatement closer (text.drop b) with
  | false => exact .fail b _
  | true =>
    refine Follows.ask (k := .statements closer b) (.further (show n < b by omega) hb) hb fun more f _ _ hf => ?_
    exact .done rfl hf

/-! ### All of them -/

/-- **The courses are the parser's**: each call does what the running parser does at its position, and leads on. -/
theorem follows {k : Call} (hk : k.Stands text) : (course text k).Follows text (Leads text k) (told text k) := by
  cases k with
  | blanks n => exact follows_blanks hk
  | linebreaks n => exact follows_linebreaks hk
  | separators n => exact follows_separators hk
  | span p n => exact follows_span p hk
  | statements closer n => exact follows_statements closer hk
  | andOr n => exact follows_andOr hk
  | links n => exact follows_links hk
  | pipeline n => exact follows_pipeline hk
  | piped n => exact follows_piped hk
  | command n => exact follows_command hk
  | trailing n => exact follows_trailing hk
  | simple n => exact follows_simple hk
  | items named n => exact follows_items named hk
  | redirect n => exact follows_redirect hk
  | word inDefault n => exact follows_word inDefault hk
  | quotation n => exact follows_quotation hk
  | quoted start n => exact follows_quoted start
  | parameter n => exact follows_parameter hk
  | dollar quoted n => exact follows_dollar quoted hk

end Course

end Taskwork.Shell
