/-
The texts of statements. A statement keeps the stretch of the source it was read from, without white
space around it, and that is what is shown of it. Read alone, the stretch is the same statement again,
however deeply it stood in words and groups. The text is so too unless something of a word was taken
for white space around it: a blank behind a backslash, or white space that is no blank of the shell.
-/
import Taskwork.Proofs.Shell.Cuts
import Taskwork.Proofs.Shell.Trees

namespace Taskwork.Shell

/-! ## All statements of a script -/

mutual

/-- Something holds of all statements in a part of a word, however deep they stand. -/
inductive Part.Throughout (P : Statement → Prop) : Part → Prop where
  | literal {text : String} {quoted : Bool} : Part.Throughout P (.literal text quoted)
  | param {name : String} {fallback : Option Word} {quoted : Bool}
    (hfallback : ∀ word ∈ fallback, ∀ part ∈ word, Part.Throughout P part) :
    Part.Throughout P (.param name fallback quoted)
  | subst {script : Script} {quoted : Bool} (hscript : ∀ s ∈ script, Statement.Throughout P s) :
    Part.Throughout P (.subst script quoted)

inductive Command.Throughout (P : Statement → Prop) : Command → Prop where
  | simple {assigns : List Assign} {words : List Word} {redirects : List Redirect}
    (hassigns : ∀ a ∈ assigns, ∀ part ∈ a.value, Part.Throughout P part)
    (hwords : ∀ word ∈ words, ∀ part ∈ word, Part.Throughout P part)
    (hredirects : ∀ r ∈ redirects, ∀ part ∈ r.target, Part.Throughout P part) :
    Command.Throughout P (.simple assigns words redirects)
  | subshell {script : Script} {redirects : List Redirect} (hscript : ∀ s ∈ script, Statement.Throughout P s)
    (hredirects : ∀ r ∈ redirects, ∀ part ∈ r.target, Part.Throughout P part) :
    Command.Throughout P (.subshell script redirects)
  | group {script : Script} {redirects : List Redirect} (hscript : ∀ s ∈ script, Statement.Throughout P s)
    (hredirects : ∀ r ∈ redirects, ∀ part ∈ r.target, Part.Throughout P part) :
    Command.Throughout P (.group script redirects)

/-- Something holds of a statement and of all statements in it. -/
inductive Statement.Throughout (P : Statement → Prop) : Statement → Prop where
  | mk {s : Statement} (hself : P s) (hfirst : ∀ c ∈ s.first.commands, Command.Throughout P c)
    (hrest : ∀ link ∈ s.rest, ∀ c ∈ link.pipeline.commands, Command.Throughout P c) : Statement.Throughout P s

end

variable {P Q : Statement → Prop}

mutual

theorem Part.Throughout.mono (hPQ : ∀ s, P s → Q s) : ∀ {part : Part}, part.Throughout P → part.Throughout Q
  | _, .literal => .literal
  | _, .param hfallback => .param fun word hword part hpart => (hfallback word hword part hpart).mono hPQ
  | _, .subst hscript => .subst fun s hs => (hscript s hs).mono hPQ

theorem Command.Throughout.mono (hPQ : ∀ s, P s → Q s) :
    ∀ {command : Command}, command.Throughout P → command.Throughout Q
  | _, .simple hassigns hwords hredirects => .simple (fun a ha part hpart => (hassigns a ha part hpart).mono hPQ)
      (fun word hword part hpart => (hwords word hword part hpart).mono hPQ)
      fun r hr part hpart => (hredirects r hr part hpart).mono hPQ
  | _, .subshell hscript hredirects => .subshell (fun s hs => (hscript s hs).mono hPQ)
      fun r hr part hpart => (hredirects r hr part hpart).mono hPQ
  | _, .group hscript hredirects => .group (fun s hs => (hscript s hs).mono hPQ)
      fun r hr part hpart => (hredirects r hr part hpart).mono hPQ

theorem Statement.Throughout.mono (hPQ : ∀ s, P s → Q s) : ∀ {s : Statement}, s.Throughout P → s.Throughout Q
  | s, .mk hself hfirst hrest => .mk (hPQ s hself) (fun c hc => (hfirst c hc).mono hPQ)
      fun link hlink c hc => (hrest link hlink c hc).mono hPQ

end

theorem Part.Throughout.cons {part : Part} {word : Word} (hpart : part.Throughout P)
    (h : ∀ p ∈ word, p.Throughout P) : ∀ p ∈ Word.cons part word, p.Throughout P := by
  unfold Word.cons
  split
  · rename_i text quoted text' quoted' rest
    rw [List.forall_mem_cons] at h
    split_ifs
    · exact List.forall_mem_cons.mpr ⟨.literal, h.2⟩
    · exact List.forall_mem_cons.mpr ⟨hpart, List.forall_mem_cons.mpr h⟩
  · exact List.forall_mem_cons.mpr ⟨hpart, h⟩

theorem Part.Throughout.foldr {parts word : Word} (hparts : ∀ p ∈ parts, p.Throughout P)
    (h : ∀ p ∈ word, p.Throughout P) : ∀ p ∈ parts.foldr Word.cons word, p.Throughout P := by
  induction parts with
  | nil => exact h
  | cons part parts ih =>
    rw [List.forall_mem_cons] at hparts
    exact .cons hparts.1 (ih hparts.2)

/-- The same of what a command is made of. -/
def Parser.Item.Throughout (P : Statement → Prop) : Parser.Item → Prop
  | .assign a => ∀ p ∈ a.value, p.Throughout P
  | .word w => ∀ p ∈ w, p.Throughout P
  | .redirect r => ∀ p ∈ r.target, p.Throughout P

/-- The same of all that a command is made of. -/
structure Parser.Parts.Throughout (P : Statement → Prop) (parts : Parser.Parts) : Prop where
  assigns : ∀ a ∈ parts.1, ∀ p ∈ a.value, p.Throughout P
  words : ∀ word ∈ parts.2.1, ∀ p ∈ word, p.Throughout P
  redirects : ∀ r ∈ parts.2.2, ∀ p ∈ r.target, p.Throughout P

namespace Parser

theorem Parts.Throughout.onto {i : Item} {parts : Parts} (h : parts.Throughout P) (hi : i.Throughout P) :
    (i.onto parts).Throughout P := by
  obtain ⟨assigns, words, redirects⟩ := parts
  cases i with
  | assign a => exact ⟨List.forall_mem_cons.mpr ⟨hi, h.assigns⟩, h.words, h.redirects⟩
  | word w => exact ⟨h.assigns, List.forall_mem_cons.mpr ⟨hi, h.words⟩, h.redirects⟩
  | redirect r => exact ⟨h.assigns, h.words, List.forall_mem_cons.mpr ⟨hi, h.redirects⟩⟩

theorem Item.Throughout.of_itemOf {leading : Bool} {s : Cursor} {w : Word} {i : Item}
    (h : itemOf leading s w = .ok i) (hw : ∀ p ∈ w, p.Throughout P) : i.Throughout P := by
  cases i with
  | word w' =>
    obtain rfl := eq_of_itemOf h
    exact hw
  | redirect r => exact absurd h (itemOf_ne_redirect leading s w r)
  | assign a =>
    unfold itemOf at h
    split at h
    · split at h
      · rename_i a' hassign
        cases h
        unfold assignment? at hassign
        split at hassign
        · rename_i text rest
          rw [List.forall_mem_cons] at hw
          dsimp only at hassign
          split at hassign
          · cases hassign
          · split_ifs at hassign
            · cases hassign
              exact hw.2
            · cases hassign
              exact List.forall_mem_cons.mpr ⟨.literal, hw.2⟩
        · cases hassign
      · split at h
        · split at h <;> cases h
        · cases h
    · cases h

end Parser

/-! ## Where statements are read -/

namespace Cursor

theorem gap_drop_gap {between : Char → Bool} (comment : Bool) (cs : List Char) :
    gap between false (cs.drop (gap between comment cs)) = 0 := by
  induction comment, cs using gap.induct between with
  | case1 comment => cases comment <;> rfl
  | case2 r hb ih =>
    rw [gap, if_pos rfl, if_pos hb, Nat.add_comm, List.drop_succ_cons]
    exact ih
  | case3 r hb =>
    rw [gap, if_pos rfl, if_neg hb, List.drop_zero, gap_cons (by simp), if_neg (by decide),
      if_neg (by simpa [isBlank] using hb)]
  | case4 x r hx ih =>
    rw [gap, if_neg hx, Nat.add_comm, List.drop_succ_cons]
    exact ih
  | case5 r ih =>
    rw [gap, Nat.add_comm, List.drop_succ_cons, List.drop_succ_cons]
    exact ih
  | case6 r hx ih =>
    rw [gap_cons hx, if_pos rfl, Nat.add_comm, List.drop_succ_cons]
    exact ih
  | case7 x r hx hsharp hskip ih =>
    rw [gap_cons hx, if_neg hsharp, if_pos hskip, Nat.add_comm, List.drop_succ_cons]
    exact ih
  | case8 x r hx hsharp hskip =>
    rw [gap_cons hx, if_neg hsharp, if_neg hskip, List.drop_zero, gap_cons hx, if_neg hsharp, if_neg hskip]

theorem skipBlanks_skipBlanks (c : Cursor) : c.skipBlanks.skipBlanks = c.skipBlanks := by
  rw [skipBlanks, skipBlanks, rest_advance, gap_drop_gap]
  rfl

theorem skipSeparators_skipSeparators (c : Cursor) : c.skipSeparators.skipSeparators = c.skipSeparators := by
  rw [skipSeparators, skipSeparators, rest_advance, gap_drop_gap]
  rfl

end Cursor

/-- A statement is read between two places of the text at `o`, and what a statement ends at follows. -/
structure Statement.ReadAt (o c e : Cursor) (s : Statement) : Prop where
  within : o.Within c
  onward : c.Within e
  start : c.skipSeparators = c
  line : s.line = c.line
  read : Parser.passed (Parser.andOr c) = .ok ((s.first, s.rest), e)
  stops : ∀ x ∈ e.rest.head?, x = '\n' ∨ x = ';' ∨ x = ')'
  text : s.text = Text.trim (String.ofList (c.upTo e))

namespace Parser

variable {o : Cursor}

theorem Moves.within {α : Type} [Placed α] {n : Nat} {tail : List Char} {x y : Except SyntaxError α} {a : α}
    (h : Moves n tail o x y) (hx : x = .ok a) : Placed.within o a := by
  subst hx
  exact h.1

theorem closedBy_nil (o : Cursor) : o.ClosedBy [] := .inl rfl

theorem skipBlanks_of_links {c e : Cursor} {rest : List Link} (h : seen (links c) = .ok (rest, e)) :
    e.skipBlanks = e := by
  rw [seen_links] at h
  cases hconnector : connector? c.skipBlanks with
  | none =>
    rw [hconnector] at h
    cases h
    exact c.skipBlanks_skipBlanks
  | some connector =>
    rw [hconnector] at h
    obtain ⟨⟨next, d⟩, hnext, h⟩ := eq_ok_of_bind h
    obtain ⟨⟨more, f⟩, hmore, h⟩ := eq_ok_of_bind h
    cases h
    have := two_le_of_connector hconnector
    have := c.size_skipBlanks_le
    have := c.skipBlanks.step.size_step_le
    have := size_step_of_pos (c := c.skipBlanks) (by omega)
    have := c.skipBlanks.step.step.size_skipLinebreaks_le
    have := lt_of_passed hnext
    exact skipBlanks_of_links hmore
termination_by c.size
decreasing_by omega

theorem skipBlanks_of_andOr {c e : Cursor} {list : Pipeline × List Link} (h : passed (andOr c) = .ok (list, e)) :
    e.skipBlanks = e := by
  rw [passed_andOr] at h
  obtain ⟨⟨first, d⟩, -, h⟩ := eq_ok_of_bind h
  obtain ⟨⟨rest, f⟩, hlinks, h⟩ := eq_ok_of_bind h
  cases h
  exact skipBlanks_of_links hlinks

theorem readAt_of_passed {closer : Closer} {c e : Cursor} {first : Pipeline} {rest : List Link}
    (hc : o.Within c) (hstart : c.skipSeparators = c) (hread : passed (andOr c) = .ok ((first, rest), e))
    (hends : endsStatement closer e.skipBlanks.rest = true) :
    Statement.ReadAt o c e ⟨first, rest, Text.trim (String.ofList (c.upTo e)), c.line⟩ where
  within := hc
  onward := ((moves_andOr (n := 0) (closedBy_nil c) (.refl c)).within hread).2
  start := hstart
  line := rfl
  read := hread
  stops := by
    intro x hx
    rw [skipBlanks_of_andOr hread] at hends
    cases hrest : e.rest with
    | nil => rw [hrest] at hx; cases hx
    | cons y r =>
      rw [hrest] at hx hends
      cases hx
      simp only [endsStatement, Bool.or_eq_true, Bool.and_eq_true, beq_iff_eq] at hends
      tauto
  text := rfl

/-! ## The functions of the parser -/

/-- A statement is read somewhere in the text at `o`. -/
def Read (o : Cursor) (s : Statement) : Prop := ∃ c e, s.ReadAt o c e

-- The induction is on what is left of the text, and at one place on the order in which the functions call
-- each other, which the second summand of each measure counts.

mutual

theorem throughout_statements {closer : Closer} {c e : Cursor} {script : Script} (hc : o.Within c)
    (h : seen (statements closer c) = .ok (script, e)) : ∀ s ∈ script, s.Throughout (Read o) := by
  obtain ⟨-, rfl, -⟩ | ⟨-, -, first, rest, d, more, hlist, hends, hmore, rfl⟩ := statements_cases h
  · simp
  · have := c.size_skipSeparators_le
    have := lt_of_passed hlist
    have := d.size_skipBlanks_le
    have hd : o.Within d := ((moves_andOr (n := 0) (closedBy_nil o) hc.skipSeparators).within hlist).2
    obtain ⟨hfirst, hrest⟩ := throughout_andOr hc.skipSeparators hlist
    have hself : Statement.ReadAt o c.skipSeparators d
        ⟨first, rest, Text.trim (String.ofList (c.skipSeparators.upTo d)), c.skipSeparators.line⟩ :=
      readAt_of_passed hc.skipSeparators c.skipSeparators_skipSeparators hlist hends
    exact List.forall_mem_cons.mpr
      ⟨.mk ⟨_, _, hself⟩ hfirst hrest, throughout_statements hd.skipBlanks hmore⟩
termination_by 16 * c.size + 9
decreasing_by all_goals omega

theorem throughout_andOr {c e : Cursor} {first : Pipeline} {rest : List Link} (hc : o.Within c)
    (h : passed (andOr c) = .ok ((first, rest), e)) :
    (∀ command ∈ first.commands, command.Throughout (Read o)) ∧
      ∀ link ∈ rest, ∀ command ∈ link.pipeline.commands, command.Throughout (Read o) := by
  rw [passed_andOr] at h
  obtain ⟨⟨p, d⟩, hp, h⟩ := eq_ok_of_bind h
  obtain ⟨⟨ls, f⟩, hlinks, h⟩ := eq_ok_of_bind h
  cases h
  have := lt_of_passed hp
  have hd : o.Within d := ((moves_pipeline (n := 0) (closedBy_nil o) hc).within hp).2
  exact ⟨throughout_pipeline hc hp, throughout_links hd hlinks⟩
termination_by 16 * c.size + 8
decreasing_by all_goals omega

theorem throughout_links {c e : Cursor} {rest : List Link} (hc : o.Within c) (h : seen (links c) = .ok (rest, e)) :
    ∀ link ∈ rest, ∀ command ∈ link.pipeline.commands, command.Throughout (Read o) := by
  rw [seen_links] at h
  cases hconnector : connector? c.skipBlanks with
  | none =>
    rw [hconnector] at h
    cases h
    simp
  | some connector =>
    rw [hconnector] at h
    obtain ⟨⟨next, d⟩, hnext, h⟩ := eq_ok_of_bind h
    obtain ⟨⟨more, f⟩, hmore, h⟩ := eq_ok_of_bind h
    cases h
    have := two_le_of_connector hconnector
    have := c.size_skipBlanks_le
    have := c.skipBlanks.step.size_step_le
    have := size_step_of_pos (c := c.skipBlanks) (by omega)
    have := c.skipBlanks.step.step.size_skipLinebreaks_le
    have := lt_of_passed hnext
    have hs := hc.skipBlanks.step.step.skipLinebreaks
    have hd : o.Within d := ((moves_pipeline (n := 0) (closedBy_nil o) hs).within hnext).2
    exact List.forall_mem_cons.mpr ⟨throughout_pipeline hs hnext, throughout_links hd hmore⟩
termination_by 16 * c.size + 8
decreasing_by all_goals omega

theorem throughout_pipeline {c e : Cursor} {p : Pipeline} (hc : o.Within c) (h : passed (pipeline c) = .ok (p, e)) :
    ∀ command ∈ p.commands, command.Throughout (Read o) := by
  rw [passed_pipeline] at h
  obtain ⟨⟨first, d⟩, hfirst, h⟩ := eq_ok_of_bind h
  obtain ⟨⟨more, f⟩, hmore, h⟩ := eq_ok_of_bind h
  cases h
  have := c.size_skipBlanks_le
  have := size_afterBang_le c.skipBlanks
  have := lt_of_passed hfirst
  have hs := within_afterBang hc.skipBlanks
  have hd : o.Within d := ((moves_command (n := 0) (closedBy_nil o) hs).within hfirst).2
  exact List.forall_mem_cons.mpr ⟨throughout_command hs hfirst, throughout_piped hd hmore⟩
termination_by 16 * c.size + 7
decreasing_by all_goals omega

theorem throughout_piped {c e : Cursor} {commands : List Command} (hc : o.Within c)
    (h : seen (piped c) = .ok (commands, e)) : ∀ command ∈ commands, command.Throughout (Read o) := by
  rw [seen_piped] at h
  cases hpipe : atPipe c.skipBlanks with
  | false =>
    rw [hpipe] at h
    cases h
    simp
  | true =>
    rw [hpipe, if_pos rfl] at h
    obtain ⟨⟨next, d⟩, hnext, h⟩ := eq_ok_of_bind h
    obtain ⟨⟨more, f⟩, hmore, h⟩ := eq_ok_of_bind h
    cases h
    have := c.size_skipBlanks_le
    have := size_step_of_pos (one_le_of_atPipe hpipe)
    have := c.skipBlanks.step.size_skipLinebreaks_le
    have := lt_of_passed hnext
    have hs := hc.skipBlanks.step.skipLinebreaks
    have hd : o.Within d := ((moves_command (n := 0) (closedBy_nil o) hs).within hnext).2
    exact List.forall_mem_cons.mpr ⟨throughout_command hs hnext, throughout_piped hd hmore⟩
termination_by 16 * c.size + 7
decreasing_by all_goals omega

theorem throughout_command {c e : Cursor} {found : Command} (hc : o.Within c)
    (h : passed (command c) = .ok (found, e)) : found.Throughout (Read o) := by
  have := c.size_skipBlanks_le
  by_cases hparen : c.skipBlanks.rest.head? = some '('
  · obtain ⟨r, hr⟩ := List.head?_eq_some_iff.mp hparen
    have := Cursor.size_step hr
    rw [passed_command_subshell hr] at h
    split_ifs at h
    · cases h
    · obtain ⟨⟨script, d⟩, hscript, h⟩ := eq_ok_of_bind h
      obtain ⟨⟨redirects, f⟩, hredirects, h⟩ := eq_ok_of_bind h
      cases h
      have := le_of_seen hscript
      have := d.size_step_le
      have hd : o.Within d :=
        ((moves_statements (n := 0) .paren (closedBy_nil o) nofun hc.skipBlanks.step).within hscript).2
      exact .subshell (throughout_statements hc.skipBlanks.step hscript) (throughout_trailing hd.step hredirects)
  by_cases hbrace : c.skipBlanks.atLone '\x7b' = true
  · have := size_step_of_pos (one_le_of_atLone hbrace)
    rw [passed_command_group hbrace] at h
    obtain ⟨⟨script, d⟩, hscript, h⟩ := eq_ok_of_bind h
    obtain ⟨⟨redirects, f⟩, hredirects, h⟩ := eq_ok_of_bind h
    cases h
    have := le_of_seen hscript
    have := d.size_step_le
    have hd : o.Within d :=
      ((moves_statements (n := 0) .brace (closedBy_nil o) nofun hc.skipBlanks.step).within hscript).2
    exact .group (throughout_statements hc.skipBlanks.step hscript) (throughout_trailing hd.step hredirects)
  · rw [passed_command_simple hparen (Bool.eq_false_iff.mpr hbrace)] at h
    exact throughout_simple hc.skipBlanks h
termination_by 16 * c.size + 6
decreasing_by all_goals omega

theorem throughout_trailing {c e : Cursor} {redirects : List Redirect} (hc : o.Within c)
    (h : seen (trailing c) = .ok (redirects, e)) : ∀ r ∈ redirects, ∀ p ∈ r.target, p.Throughout (Read o) := by
  rw [seen_trailing] at h
  have := c.size_skipBlanks_le
  obtain ⟨_ | ⟨first, d⟩, hfirst, h⟩ := eq_ok_of_bind h
  · cases h
    simp
  · obtain ⟨⟨more, f⟩, hmore, h⟩ := eq_ok_of_bind h
    cases h
    have := lt_of_passed? hfirst
    have hd : o.Within d :=
      ((moves_redirect? (n := 0) (closedBy_nil o) hc.skipBlanks).within hfirst _ rfl).2
    exact List.forall_mem_cons.mpr ⟨throughout_redirect hc.skipBlanks hfirst, throughout_trailing hd hmore⟩
termination_by 16 * c.size + 6
decreasing_by all_goals omega

theorem throughout_simple {c e : Cursor} {found : Command} (hc : o.Within c)
    (h : passed (simple c) = .ok (found, e)) : found.Throughout (Read o) := by
  rw [passed_simple] at h
  obtain ⟨⟨_ | ⟨i, d⟩, s⟩, hitem, h⟩ := eq_ok_of_bind h
  · cases h
  · obtain ⟨⟨parts, f⟩, hitems, h⟩ := eq_ok_of_bind h
    cases h
    have := lt_of_found hitem
    have hd : o.Within d := (((moves_item? (n := 0) (closedBy_nil o) hc).within hitem).1 _ rfl).2
    have hparts := (throughout_items hd hitems).onto (throughout_item hc hitem)
    exact .simple hparts.assigns hparts.words hparts.redirects
termination_by 16 * c.size + 5
decreasing_by all_goals omega

theorem throughout_items {named : Bool} {c e : Cursor} {parts : Parts} (hc : o.Within c)
    (h : seen (items named c) = .ok (parts, e)) : parts.Throughout (Read o) := by
  rw [seen_items] at h
  obtain ⟨⟨_ | ⟨i, d⟩, s⟩, hitem, h⟩ := eq_ok_of_bind h
  · cases h
    exact ⟨by simp, by simp, by simp⟩
  · obtain ⟨⟨more, f⟩, hitems, h⟩ := eq_ok_of_bind h
    cases h
    have := lt_of_found hitem
    have hd : o.Within d := (((moves_item? (n := 0) (closedBy_nil o) hc).within hitem).1 _ rfl).2
    exact (throughout_items hd hitems).onto (throughout_item hc hitem)
termination_by 16 * c.size + 5
decreasing_by all_goals omega

theorem throughout_item {leading : Bool} {c s e : Cursor} {i : Item} (hc : o.Within c)
    (h : found (item? leading c) = .ok (some (i, e), s)) : i.Throughout (Read o) := by
  have := c.size_skipBlanks_le
  rw [found_item] at h
  split at h
  · cases h
  · split_ifs at h
    · cases h
    · cases h
    · obtain ⟨_ | ⟨redirect, d⟩, hredirect, h⟩ := eq_ok_of_bind h
      · obtain ⟨⟨parts, d⟩, hpiece, h⟩ := eq_ok_of_bind h
        obtain ⟨⟨more, f⟩, hmore, h⟩ := eq_ok_of_bind h
        obtain ⟨i, hitem, h⟩ := eq_ok_of_bind h
        cases h
        have := lt_of_passed hpiece
        have hd : o.Within d := ((moves_piece (n := 0) (closedBy_nil o) hc.skipBlanks).within hpiece).2
        exact .of_itemOf hitem (.foldr (throughout_piece hc.skipBlanks hpiece) (throughout_word hd hmore))
      · cases h
        exact throughout_redirect hc.skipBlanks hredirect
termination_by 16 * c.size + 4
decreasing_by all_goals omega

theorem throughout_redirect {c e : Cursor} {r : Redirect} (hc : o.Within c)
    (h : passed? (redirect? c) = .ok (some (r, e))) : ∀ p ∈ r.target, p.Throughout (Read o) := by
  rw [passed?_redirect] at h
  obtain ⟨_ | ⟨⟨fd, kind⟩, s⟩, hoperator, h⟩ := eq_ok_of_bind h
  · cases h
  · obtain ⟨⟨target, d⟩, hword, h⟩ := eq_ok_of_bind h
    have := lt_of_passed? hoperator
    have := s.size_skipBlanks_le
    have hs : o.Within s := ((moves_redirectOperator? (n := 0) (closedBy_nil c) hc).within hoperator _ rfl).2
    have htarget := throughout_word hs.skipBlanks hword
    dsimp only at h
    split_ifs at h
    · cases h
    · cases h
    · cases h
      exact htarget
termination_by 16 * c.size + 3
decreasing_by all_goals omega

theorem throughout_word {inDefault : Bool} {c e : Cursor} {w : Word} (hc : o.Within c)
    (h : seen (word inDefault c) = .ok (w, e)) : ∀ p ∈ w, p.Throughout (Read o) := by
  cases hrest : c.rest with
  | nil =>
    rw [word_nil hrest] at h
    cases h
    simp
  | cons x r =>
    cases hx : continues inDefault x with
    | false =>
      rw [word_stop hrest hx] at h
      cases h
      simp
    | true =>
      rw [word_step hrest hx] at h
      obtain ⟨⟨parts, d⟩, hpiece, h⟩ := eq_ok_of_bind h
      obtain ⟨⟨more, f⟩, hmore, h⟩ := eq_ok_of_bind h
      cases h
      have := lt_of_passed hpiece
      have hd : o.Within d := ((moves_piece (n := 0) (closedBy_nil o) hc).within hpiece).2
      exact .foldr (throughout_piece hc hpiece) (throughout_word hd hmore)
termination_by 16 * c.size + 2
decreasing_by all_goals omega

theorem throughout_piece {c e : Cursor} {parts : Word} (hc : o.Within c)
    (h : passed (piece c) = .ok (parts, e)) : ∀ p ∈ parts, p.Throughout (Read o) := by
  cases hrest : c.rest with
  | nil =>
    rw [piece_nil hrest] at h
    cases h
  | cons x r =>
    cases hx : isSpecial x with
    | false =>
      rw [piece_plain hrest hx] at h
      cases h
      exact List.forall_mem_singleton.mpr .literal
    | true =>
      have := Cursor.size_step hrest
      simp only [isSpecial, Bool.or_eq_true, beq_iff_eq] at hx
      obtain (((rfl | rfl) | rfl) | rfl) | rfl := hx
      · cases r with
        | nil =>
          rw [piece_backslash hrest] at h
          cases h
          exact List.forall_mem_singleton.mpr .literal
        | cons y r =>
          by_cases hy : y = '\n'
          · subst hy
            rw [piece_continuation hrest] at h
            cases h
            simp
          · rw [piece_escape hrest hy] at h
            cases h
            exact List.forall_mem_singleton.mpr .literal
      · rw [piece_single hrest] at h
        obtain ⟨⟨text, d⟩, -, h⟩ := eq_ok_of_bind h
        cases h
        exact List.forall_mem_singleton.mpr .literal
      · rw [piece_double hrest] at h
        obtain ⟨⟨quotation, d⟩, hdouble, h⟩ := eq_ok_of_bind h
        cases h
        exact .cons .literal (throughout_doubleQuoted hc.step hdouble)
      · rw [piece_dollar hrest] at h
        obtain ⟨⟨part, d⟩, hdollar, h⟩ := eq_ok_of_bind h
        cases h
        exact List.forall_mem_singleton.mpr (throughout_dollar hc hrest hdollar)
      · rw [piece_backtick hrest] at h
        cases h
termination_by 16 * c.size + 1
decreasing_by all_goals omega

theorem throughout_doubleQuoted {start c e : Cursor} {w : Word} (hc : o.Within c)
    (h : seen (doubleQuoted start c) = .ok (w, e)) : ∀ p ∈ w, p.Throughout (Read o) := by
  cases hrest : c.rest with
  | nil =>
    rw [doubleQuoted_nil hrest] at h
    cases h
  | cons x r =>
    have hone := Cursor.rest_step hrest
    have := Cursor.size_step hrest
    by_cases hclose : x = '"'
    · subst hclose
      rw [doubleQuoted_close hrest] at h
      cases h
      simp
    by_cases hdollar : x = '$'
    · subst hdollar
      rw [doubleQuoted_dollar hrest] at h
      obtain ⟨⟨part, d⟩, hpart, h⟩ := eq_ok_of_bind h
      obtain ⟨⟨more, f⟩, hmore, h⟩ := eq_ok_of_bind h
      cases h
      have := lt_of_passed hpart
      have hd : o.Within d := ((moves_dollar (n := 0) (closedBy_nil o) hc hrest).within hpart).2
      exact .cons (throughout_dollar hc hrest hpart) (throughout_doubleQuoted hd hmore)
    by_cases hbacktick : x = '\x60'
    · subst hbacktick
      rw [doubleQuoted_backtick hrest] at h
      cases h
    by_cases hescape : x = '\\' ∧ r ≠ []
    · obtain ⟨rfl, hne⟩ := hescape
      obtain ⟨y, r, rfl⟩ := List.exists_cons_of_ne_nil hne
      have := Cursor.size_step hone
      rw [doubleQuoted_escape hrest] at h
      split_ifs at h
      · exact throughout_doubleQuoted hc.step.step h
      · obtain ⟨⟨more, f⟩, hmore, h⟩ := eq_ok_of_bind h
        cases h
        exact .cons .literal (throughout_doubleQuoted hc.step.step hmore)
      · obtain ⟨⟨more, f⟩, hmore, h⟩ := eq_ok_of_bind h
        cases h
        exact .cons .literal (throughout_doubleQuoted hc.step hmore)
    · have hr : x = '\\' → r = [] := fun hx => Decidable.not_not.1 fun hne => hescape ⟨hx, hne⟩
      rw [doubleQuoted_plain hrest ⟨hclose, hdollar, hbacktick⟩ hr] at h
      obtain ⟨⟨more, f⟩, hmore, h⟩ := eq_ok_of_bind h
      cases h
      exact .cons .literal (throughout_doubleQuoted hc.step hmore)
termination_by 16 * c.size + 1
decreasing_by all_goals omega

theorem throughout_dollar {quoted : Bool} {c e : Cursor} {part : Part} {r : List Char} (hc : o.Within c)
    (hrest : c.rest = '$' :: r) (h : passed (dollar quoted c) = .ok (part, e)) : part.Throughout (Read o) := by
  have hone := Cursor.rest_step hrest
  have := Cursor.size_step hrest
  by_cases halone : ∀ x ∈ r.head?, x ≠ '\x7b' ∧ x ≠ '(' ∧ startsParameter x = false
  · rw [dollar_alone hrest halone] at h
    cases h
    exact .literal
  cases r with
  | nil => exact absurd nofun halone
  | cons x r =>
    have := Cursor.size_step hone
    by_cases hbrace : x = '\x7b'
    · subst hbrace
      rw [dollar_brace hrest] at h
      have := (parameterName c.step.step).le
      split_ifs at h
      · cases h
      · cases h
        exact .param nofun
      · obtain ⟨⟨fallback, f⟩, hword, h⟩ := eq_ok_of_bind h
        dsimp only at h
        split_ifs at h
        · cases h
          have := (parameterName c.step.step).next.size_step_le
          have := (parameterName c.step.step).next.step.size_step_le
          refine .param fun word hfallback => ?_
          cases hfallback
          exact throughout_word (parameterName_within hc.step.step).step.step hword
        · cases h
      · cases h
    by_cases hparen : x = '('
    · subst hparen
      rw [dollar_paren hrest] at h
      split_ifs at h
      · cases h
      · obtain ⟨⟨script, d⟩, hscript, h⟩ := eq_ok_of_bind h
        cases h
        exact .subst (throughout_statements hc.step.step hscript)
    · have hname : startsParameter x = true := by
        cases hx : startsParameter x with
        | true => rfl
        | false => exact absurd (fun y hy => by cases hy; exact ⟨hbrace, hparen, hx⟩) halone
      rw [dollar_name hrest hname] at h
      cases h
      exact .param nofun
termination_by 16 * c.size
decreasing_by all_goals omega

end

end Parser

/-! ## Reading a text again -/

namespace Cursor

variable {o c e : Cursor}

theorem upTo_append (h : c.Within e) : c.upTo e ++ e.rest = c.rest := by
  obtain ⟨k, rfl⟩ := h
  unfold upTo
  rw [rest_advance, List.length_drop]
  rcases Nat.le_total k c.rest.length with hk | hk
  · rw [Nat.sub_sub_self hk, List.take_append_drop]
  · rw [Nat.sub_eq_zero_of_le hk, Nat.sub_zero, List.take_length, List.drop_of_length_le hk, List.append_nil]

theorem upTo_upTo_append (h : o.Within c) (he : c.Within e) : o.upTo c ++ c.upTo e ++ e.rest = o.rest := by
  rw [List.append_assoc, upTo_append he, upTo_append h]

/-- Lines are counted by the newlines before a place. -/
theorem Within.line_eq_count (h : o.Within c) : c.line = o.line + (o.upTo c).count '\n' := by
  have hline := h.line_eq
  rw [← upTo_append h, List.count_append] at hline
  omega

theorem Within.line_le (h : o.Within c) : o.line ≤ c.line := h.line_eq_count ▸ Nat.le_add_right _ _

theorem gap_of_skipSeparators (h : c.skipSeparators = c) (hne : c.rest ≠ []) :
    gap (fun x => x == '\n' || x == ';') false c.rest = 0 := by
  have hrest := congrArg Cursor.size h
  rw [skipSeparators, size, rest_advance, List.length_drop] at hrest
  have hpos := List.length_pos_iff.mpr hne
  unfold size at hrest
  omega

end Cursor

/-- Before the cut a statement starts where it starts in the longer text. -/
theorem Cursor.Cut.skipSeparators_eq {n : Nat} {blanks stop : List Char} {c d : Cursor} (h : Cursor.Cut n blanks stop c d)
    (hd : d.skipSeparators = d) (hlt : stop.length < d.size) : c.skipSeparators = c := by
  rw [← hd] at hlt
  have hs := (h.skipSeparators hlt.le).rest_of_ne_nil (h.skipSeparators_ne_nil hlt)
  have hne : c.rest ≠ [] := by
    intro hnil
    exact h.skipSeparators_ne_nil hlt (by rw [Cursor.skipSeparators_nil hnil, hnil])
  rw [hd, h.rest_of_ne_nil hne, List.append_left_inj, Cursor.skipSeparators, Cursor.rest_advance] at hs
  have hlength := congrArg List.length hs
  rw [List.length_drop] at hlength
  have hpos := List.length_pos_iff.mpr hne
  rw [Cursor.skipSeparators, show Cursor.gap (fun x => x == '\n' || x == ';') false c.rest = 0 by omega]
  rfl

namespace Parser

variable {n : Nat} {blanks stop : List Char} {c d e : Cursor}

/-- A statement that is cut out is a script of its own. -/
theorem statements_of_cut (h : Cursor.Cut n blanks e.rest c d) (hstart : d.skipSeparators = d) {first : Pipeline}
    {rest : List Link} (hread : passed (andOr d) = .ok ((first, rest), e)) :
    ∃ s₀ f, seen (statements .endOfText c) = .ok ([s₀], f) ∧ first = Lines.pipeline n s₀.first ∧
      rest = Lines.links n s₀.rest := by
  have hlt : e.rest.length < d.size := lt_of_passed hread
  have hc := h.skipSeparators_eq hstart hlt
  have hne := h.skipSeparators_ne_nil (by rwa [hstart])
  obtain ⟨first₀, rest₀, e₀, hread₀, rfl, rfl, he⟩ := cut_andOr h hread (Nat.le_refl _)
  -- the longer text was read up to the end of the statement, so the shorter one is read to its end
  have hend : e₀.rest = [] := by
    rcases he.rest with hrest | ⟨hnil, -⟩
    · have hlength := congrArg List.length hrest
      simp only [List.length_append] at hlength
      exact List.length_eq_zero_iff.mp (by omega)
    · exact hnil
  have hdone : seen (statements .endOfText e₀.skipBlanks) = .ok ([], e₀) := by
    rw [Cursor.skipBlanks_nil hend, seen_statements, Cursor.skipSeparators_nil hend]
    exact if_pos (List.isEmpty_iff.mpr hend)
  have hends : endsStatement .endOfText e₀.skipBlanks.rest = true := by rw [Cursor.skipBlanks_nil hend, hend]; rfl
  rw [← hc] at hread₀
  refine ⟨.mk first₀ rest₀ (Text.trim (String.ofList (c.skipSeparators.upTo e₀))) c.skipSeparators.line, e₀, ?_,
    rfl, rfl⟩
  have hmore : Closer.endOfText.holdsAt c.skipSeparators = false := List.isEmpty_eq_false_iff.mpr hne
  rw [seen_statements_cons first₀ rest₀ hmore hne hread₀ hends]
  exact (bind_of_ok hdone).trans rfl

end Parser

/-- The text is that of one statement, which is the same one but for the lines. -/
def Statement.RereadFrom (s : Statement) (text : String) : Prop :=
  ∃ s₀ n, Script.ofString text = .ok [s₀] ∧ s.first = Lines.pipeline n s₀.first ∧ s.rest = Lines.links n s₀.rest

/-- Text that begins as a statement does: with no blank, no end of a line or statement and no comment, nor with a
line that goes on. -/
def Begins (text : List Char) : Prop :=
  (∃ x ∈ text.head?, Cursor.isBlank x = false ∧ x ≠ '\n' ∧ x ≠ ';' ∧ x ≠ '#') ∧ ¬ ['\\', '\n'] <+: text

theorem begins_of_gap {text : List Char} (hne : text ≠ [])
    (hgap : Cursor.gap (fun x => x == '\n' || x == ';') false text = 0) : Begins text := by
  cases text with
  | nil => exact absurd rfl hne
  | cons x r =>
    by_cases hon : ∃ r', x = '\\' ∧ r = '\n' :: r'
    · obtain ⟨r', rfl, rfl⟩ := hon
      rw [Cursor.gap] at hgap
      omega
    · rw [Cursor.gap_cons fun r' hx hr => hon ⟨r', hx, hr⟩] at hgap
      split_ifs at hgap with hsharp hskip
      · omega
      · omega
      · refine ⟨⟨x, rfl, by simpa [hsharp] using hskip⟩, ?_⟩
        rintro ⟨r', hprefix⟩
        cases hprefix
        exact hon ⟨r', rfl, rfl⟩

namespace Statement

variable {source : String} {c e : Cursor} {s : Statement} {kept blanks : List Char}

/-- The stretch that a statement was read from is cut out with the blanks at its end or without them, unless the
first of them is escaped. -/
theorem ReadAt.cut (h : s.ReadAt (.ofString source) c e) (hkept : c.upTo e = kept ++ blanks)
    (hblank : ∀ x ∈ blanks, Cursor.isBlank x = true) (hlast : blanks = [] ∨ kept.getLast? ≠ some '\\') :
    Cursor.Cut (c.line - 1) blanks e.rest (.ofString (.ofList kept)) c := by
  have hline := h.within.line_le
  have hrest := Cursor.upTo_append h.onward
  refine ⟨.inl ?_, ?_, hblank, h.stops, ?_⟩
  · rw [← hrest, hkept, List.append_assoc, Cursor.ofString, String.toList_ofList]
  · exact (Nat.add_sub_cancel' hline).symm
  · rwa [Cursor.ofString, String.toList_ofList]

/-- What is cut out so is the statement again. -/
theorem ReadAt.reread (h : s.ReadAt (.ofString source) c e) (hkept : c.upTo e = kept ++ blanks)
    (hblank : ∀ x ∈ blanks, Cursor.isBlank x = true) (hlast : blanks = [] ∨ kept.getLast? ≠ some '\\') :
    s.RereadFrom (.ofList kept) := by
  obtain ⟨s₀, f, hread, hfirst, hmore⟩ := Parser.statements_of_cut (h.cut hkept hblank hlast) h.start h.read
  exact ⟨s₀, c.line - 1, by rw [Script.ofString_eq, hread]; rfl, hfirst, hmore⟩

theorem ReadAt.begins (h : s.ReadAt (.ofString source) c e) : Begins (c.upTo e) := by
  have hlt : e.rest.length < c.size := Parser.lt_of_passed h.read
  have hcut := h.cut (List.append_nil _).symm (by simp) (.inl rfl)
  have hskip := hcut.skipSeparators_eq h.start hlt
  have hne := hcut.skipSeparators_ne_nil (by rwa [h.start])
  have hrest : (Cursor.ofString (.ofList (c.upTo e))).rest = c.upTo e := by
    rw [Cursor.ofString, String.toList_ofList]
  rw [hskip] at hne
  exact begins_of_gap (hrest ▸ hne) (hrest ▸ Cursor.gap_of_skipSeparators hskip hne)

/-- A statement stands in a stretch of the source that begins where it begins. Alone the stretch is the same
statement. Its text is the stretch without white space around it, which is the same statement too if only blanks
of the shell were taken from its end, of which none was escaped. -/
structure Stands (source : String) (s : Statement) (before stretch after : List Char) : Prop where
  source : source.toList = before ++ stretch ++ after
  line : s.line = 1 + before.count '\n'
  begins : Begins stretch
  ends : ∀ x ∈ after.head?, x = '\n' ∨ x = ';' ∨ x = ')'
  text : s.text = Text.trim (.ofList stretch)
  alone : s.RereadFrom (.ofList stretch)
  reread : ∀ blanks, stretch = s.text.toList ++ blanks → (∀ x ∈ blanks, Cursor.isBlank x = true) →
    (blanks = [] ∨ s.text.toList.getLast? ≠ some '\\') → s.RereadFrom s.text

def StandsIn (source : String) (s : Statement) : Prop := ∃ before stretch after, s.Stands source before stretch after

theorem ReadAt.stands (h : s.ReadAt (.ofString source) c e) :
    s.Stands source ((Cursor.ofString source).upTo c) (c.upTo e) e.rest where
  source := (Cursor.upTo_upTo_append h.within h.onward).symm
  line := h.line.trans h.within.line_eq_count
  begins := h.begins
  ends := h.stops
  text := h.text
  -- the stretch is cut out with no blanks left behind it, the text with those that were trimmed
  alone := h.reread (List.append_nil _).symm (by simp) (.inl rfl)
  reread blanks hstretch hblank hlast := by
    have hreread := h.reread hstretch hblank hlast
    rwa [String.ofList_toList] at hreread

end Statement

/-- **What is shown of a statement is the statement**, for all statements of a source, however deep they stand. -/
theorem Script.statements_reread {source : String} {script : Script} (h : Script.ofString source = .ok script) :
    ∀ s ∈ script, s.Throughout (Statement.StandsIn source) := by
  rw [Script.ofString_eq] at h
  cases hread : Parser.seen (Parser.statements .endOfText (.ofString source)) with
  | error e =>
    rw [hread] at h
    cases h
  | ok p =>
    rw [hread] at h
    cases h
    intro s hs
    refine (Parser.throughout_statements (.refl _) hread s hs).mono ?_
    rintro s ⟨c, e, hat⟩
    exact ⟨_, _, _, hat.stands⟩

/-- One statement in another, with a blank behind it and on another line. -/
def innerStatement : Statement := ⟨⟨false, [.simple [] [[.literal "a" false], [.literal "b" false]] []]⟩, [], "a b", 2⟩

def outerStatement : Statement :=
  ⟨⟨false, [.subshell [innerStatement] []]⟩, [⟨.and, ⟨false, [.simple [] [[.literal "c" false]] []]⟩⟩], "(\na b ) && c", 1⟩

/-- Both stand in the source, and the texts that are shown of them are the statements. -/
theorem scriptInScript_reread :
    Script.ofString "(\na b ) && c " = .ok [outerStatement] ∧
      outerStatement.Throughout (Statement.StandsIn "(\na b ) && c ") ∧
      outerStatement.RereadFrom outerStatement.text ∧ innerStatement.RereadFrom innerStatement.text := by
  have hread : Script.ofString "(\na b ) && c " = .ok [outerStatement] := by with_unfolding_all rfl
  refine ⟨hread, Script.statements_reread hread _ List.mem_cons_self, ?_, ?_⟩
  · exact ⟨outerStatement, 0, by with_unfolding_all rfl, rfl, rfl⟩
  · exact ⟨{ innerStatement with line := 1 }, 1, by with_unfolding_all rfl, rfl, rfl⟩

/-- The escaped blank at the end of a word is taken for white space around the statement: alone, the backslash
that is left stands for itself. -/
theorem escapedBlank_not_reread :
    ∃ s, Script.ofString "echo a\\ " = .ok [s] ∧ s.text = "echo a\\" ∧ ¬ s.RereadFrom s.text := by
  refine ⟨⟨⟨false, [.simple [] [[.literal "echo" false], [.literal "a" false, .literal " " true]] []]⟩, [],
    "echo a\\", 1⟩, by with_unfolding_all rfl, rfl, ?_⟩
  have hread : Script.ofString "echo a\\" = .ok
      [⟨⟨false, [.simple [] [[.literal "echo" false], [.literal "a\\" false]] []]⟩, [], "echo a\\", 1⟩] := by
    with_unfolding_all rfl
  rintro ⟨s, n, hs, hfirst, -⟩
  cases hread.symm.trans hs
  simp only [Lines.pipeline, Lines.commands, Lines.command, Lines.words, Lines.word, Lines.part, Pipeline.mk.injEq,
    List.cons.injEq, Command.simple.injEq, reduceCtorEq, and_false, false_and] at hfirst

end Taskwork.Shell
