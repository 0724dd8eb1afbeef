/-
The shape of syntax trees. Running a script relies on facts that its type does not tell: a pipeline has a
command, a command has something to do, names are names. The parser reads only trees of which all of
them hold, however deeply scripts stand in words and words in scripts.
-/
import Taskwork.Proofs.Shell.Assignments
import Taskwork.Proofs.Shell.Spelling
import Mathlib.Data.List.Chain

namespace Taskwork.Shell

/-! ## Well-formed trees -/

/-- Two parts that may be neighbours in a word: they are not literals of one quoting. -/
def Part.Apart : Part → Part → Prop
  | .literal _ q, .literal _ q' => q ≠ q'
  | _, _ => True

def IsLetter (c : Char) : Prop := 'A' ≤ c ∧ c ≤ 'Z' ∨ 'a' ≤ c ∧ c ≤ 'z' ∨ c = '_'

/-- A letter, where an underscore counts as one, and then letters and digits. -/
def IsIdentifier (name : List Char) : Prop :=
  ∃ c cs, name = c :: cs ∧ IsLetter c ∧ ∀ x ∈ cs, IsLetter x ∨ '0' ≤ x ∧ x ≤ '9'

theorem isNameStart_iff {c : Char} : Cursor.isNameStart c = true ↔ IsLetter c := by
  simp [isNameStart_eq, IsLetter, Char.le_def, or_assoc]

theorem isNameChar_iff {c : Char} : Cursor.isNameChar c = true ↔ IsLetter c ∨ '0' ≤ c ∧ c ≤ '9' := by
  have hchar : Cursor.isNameChar c =
      (c.isAlpha || (decide ('0'.val ≤ c.val) && decide (c.val ≤ '9'.val)) || c == '_') := rfl
  rw [hchar, ← isNameStart_iff, Cursor.isNameStart]
  simp [Char.le_def, or_right_comm]

/-- The parser takes just these for names. -/
theorem isName_iff {name : List Char} : Cursor.isName name = true ↔ IsIdentifier name := by
  unfold IsIdentifier
  cases name with
  | nil => simp [Cursor.isName]
  | cons c cs => simp [Cursor.isName, isNameStart_iff, isNameChar_iff]

/-- What a parameter may be called: an identifier, or `?`. -/
def IsParameter (name : String) : Prop := name = "?" ∨ IsIdentifier name.toList

/-- A number of 32 bits in decimal digits, perhaps with a `+` in front. -/
def IsDescriptor (text : String) : Prop :=
  ∃ digits n, (text.toList = digits ∨ text.toList = '+' :: digits) ∧ Text.decimal? digits = some n ∧ n < Nat.pow 2 32

/-- A word that is nothing but a reserved word, without quotes. -/
def Word.IsReserved (word : Word) : Prop :=
  ∃ text ∈ ["if", "then", "else", "elif", "fi", "for", "while", "until", "do", "done", "case", "esac", "function",
    "select"], word = [.literal text false]

/-- A word that begins as an assignment does: with a name and `=`, without quotes. -/
def Word.IsBinding (word : Word) : Prop :=
  ∃ name value rest, IsIdentifier name ∧ word = .literal (String.ofList (name ++ '=' :: value)) false :: rest

/-- A word that a command may be called by. -/
def Word.Starts (word : Word) : Prop := ¬ word.IsReserved ∧ ¬ word.IsBinding

mutual

inductive Part.WellFormed : Part → Prop where
  | literal {text : String} {quoted : Bool} (htext : quoted = false → text ≠ "") :
    Part.WellFormed (.literal text quoted)
  | param {name : String} {fallback : Option Word} {quoted : Bool} (hname : IsParameter name)
    (hfallback : ∀ word ∈ fallback, Word.WellFormed word) : Part.WellFormed (.param name fallback quoted)
  | subst {script : Script} {quoted : Bool} (hscript : ∀ s ∈ script, Statement.WellFormed s) :
    Part.WellFormed (.subst script quoted)

inductive Word.WellFormed : Word → Prop where
  | mk {word : Word} (hapart : word.IsChain Part.Apart) (hparts : ∀ part ∈ word, Part.WellFormed part) :
    Word.WellFormed word

inductive Assign.WellFormed : Assign → Prop where
  | mk {name : String} {value : Word} (hname : IsIdentifier name.toList) (hvalue : Word.WellFormed value) :
    Assign.WellFormed ⟨name, value⟩

inductive Redirect.WellFormed : Redirect → Prop where
  | mk {fd : Nat} {kind : RedirectKind} {target : Word} (hsome : target ≠ []) (htarget : Word.WellFormed target)
    (hduplicate : kind = .duplicate → ∃ text, target = [.literal text false] ∧ IsDescriptor text) :
    Redirect.WellFormed ⟨fd, kind, target⟩

inductive Command.WellFormed : Command → Prop where
  | simple {assigns : List Assign} {words : List Word} {redirects : List Redirect}
    (hsome : assigns ≠ [] ∨ words ≠ [] ∨ redirects ≠ []) (hassigns : ∀ a ∈ assigns, Assign.WellFormed a)
    (hwords : ∀ word ∈ words, Word.WellFormed word) (hredirects : ∀ r ∈ redirects, Redirect.WellFormed r)
    (hfirst : ∀ word ∈ words.head?, Word.Starts word) :
    Command.WellFormed (.simple assigns words redirects)
  | subshell {script : Script} {redirects : List Redirect} (hscript : ∀ s ∈ script, Statement.WellFormed s)
    (hredirects : ∀ r ∈ redirects, Redirect.WellFormed r) : Command.WellFormed (.subshell script redirects)
  | group {script : Script} {redirects : List Redirect} (hscript : ∀ s ∈ script, Statement.WellFormed s)
    (hredirects : ∀ r ∈ redirects, Redirect.WellFormed r) : Command.WellFormed (.group script redirects)

inductive Pipeline.WellFormed : Pipeline → Prop where
  | mk {negated : Bool} {commands : List Command} (hsome : commands ≠ [])
    (hcommands : ∀ c ∈ commands, Command.WellFormed c) : Pipeline.WellFormed ⟨negated, commands⟩

inductive Statement.WellFormed : Statement → Prop where
  | mk {first : Pipeline} {rest : List Link} {text : String} {line : Nat} (hfirst : Pipeline.WellFormed first)
    (hrest : ∀ link ∈ rest, Pipeline.WellFormed link.pipeline) : Statement.WellFormed ⟨first, rest, text, line⟩

end

/-! ## Words -/

theorem Part.WellFormed.quoted (text : String) : Part.WellFormed (.literal text true) := .literal Bool.noConfusion

theorem Part.WellFormed.char (x : Char) (quoted : Bool) : Part.WellFormed (.literal x.toString quoted) := by
  refine .literal fun _ hempty => ?_
  have hlist := congrArg String.toList hempty
  simp at hlist

namespace Word.WellFormed

theorem nil : Word.WellFormed [] := .mk .nil (by simp)

theorem parts {word : Word} (h : Word.WellFormed word) : ∀ part ∈ word, part.WellFormed := by
  cases h with
  | mk hapart hparts => exact hparts

theorem tail {part : Part} {word : Word} (h : Word.WellFormed (part :: word)) : Word.WellFormed word := by
  cases h with
  | mk hapart hparts => exact .mk hapart.tail fun p hp => hparts p (List.mem_cons_of_mem _ hp)

/-- Another literal of the same quoting stands apart from what follows as well. -/
theorem replace {text text' : String} {quoted : Bool} {word : Word} (h : Word.WellFormed (.literal text quoted :: word))
    (htext : quoted = false → text' ≠ "") : Word.WellFormed (.literal text' quoted :: word) := by
  cases h with
  | mk hapart hparts =>
    refine .mk ?_ ?_
    · cases word with
      | nil => exact .singleton _
      | cons next word =>
        rw [List.isChain_cons_cons] at hapart ⊢
        refine ⟨?_, hapart.2⟩
        cases next <;> exact hapart.1
    · intro part hpart
      rcases List.mem_cons.mp hpart with rfl | hpart
      · exact .literal htext
      · exact hparts part (List.mem_cons_of_mem _ hpart)

theorem cons {part : Part} {word : Word} (hpart : part.WellFormed) (h : Word.WellFormed word) :
    Word.WellFormed (Word.cons part word) := by
  have hpush (hapart : ∀ next ∈ word.head?, part.Apart next) : Word.WellFormed (part :: word) := by
    cases h with
    | mk hchain hparts => exact .mk (hchain.cons hapart) (List.forall_mem_cons.mpr ⟨hpart, hparts⟩)
  unfold Word.cons
  split
  · rename_i text quoted text' quoted' rest
    split_ifs with hquoted
    · -- the two literals become one
      subst hquoted
      refine h.replace fun hbare hempty => ?_
      cases hpart with
      | literal htext =>
        rw [String.append_eq_empty_iff] at hempty
        exact htext hbare hempty.1
    · refine hpush fun next hnext => ?_
      cases hnext
      exact hquoted
  · rename_i hnot
    refine hpush fun next hnext => ?_
    cases word with
    | nil => cases hnext
    | cons first rest =>
      cases hnext
      cases part with
      | literal text quoted =>
        cases next with
        | literal text' quoted' => exact (hnot _ _ _ _ _ rfl rfl).elim
        | _ => trivial
      | _ => trivial

theorem foldr {parts : List Part} {word : Word} (hparts : ∀ part ∈ parts, part.WellFormed)
    (h : Word.WellFormed word) : Word.WellFormed (parts.foldr Word.cons word) := by
  induction parts with
  | nil => exact h
  | cons part parts ih =>
    rw [List.forall_mem_cons] at hparts
    exact .cons hparts.1 (ih hparts.2)

/-- A word without quotes is one literal. -/
theorem eq_literal {word : Word} (h : Word.WellFormed word) (hsome : word ≠ []) {text : String}
    (hplain : Word.plain? word = some text) : word = [.literal text false] := by
  cases h with
  | mk hapart hparts =>
    match word, hsome with
    | .literal first false :: rest, _ =>
      cases rest with
      | nil => simpa [Word.plain?] using hplain
      | cons next rest =>
        -- a plain neighbour would be a second literal without quotes
        cases next with
        | literal second quoted =>
          cases quoted with
          | false =>
            rw [List.isChain_cons_cons] at hapart
            exact absurd rfl hapart.1
          | true => simp [Word.plain?] at hplain
        | param name fallback quoted => simp [Word.plain?] at hplain
        | subst script quoted => simp [Word.plain?] at hplain
    | .literal first true :: rest, _ => simp [Word.plain?] at hplain
    | .param .. :: rest, _ => simp [Word.plain?] at hplain
    | .subst .. :: rest, _ => simp [Word.plain?] at hplain

end Word.WellFormed

/-! ## Pieces of a command -/

theorem isDescriptor_of_descriptor? {text : String} {n : Nat} (h : Parser.descriptor? text.toList = some n) :
    IsDescriptor text := by
  have hread {digits : List Char} {i : Int} (hi : ((Text.decimal? digits).map fun n => (n : Int)) = some i)
      (hbound : (Bounds.unsigned 32).contains i = true) : ∃ m, Text.decimal? digits = some m ∧ m < Nat.pow 2 32 := by
    cases hm : Text.decimal? digits with
    | none => simp [hm] at hi
    | some m =>
      obtain rfl : (m : Int) = i := by simpa [hm] using hi
      have hpow : Nat.pow 2 32 = 4294967296 := by decide
      rw [Bounds.contains, Bounds.unsigned, hpow, Bool.and_eq_true, decide_eq_true_eq, decide_eq_true_eq] at hbound
      dsimp only at hbound
      exact ⟨m, rfl, by omega⟩
  unfold Parser.descriptor? at h
  split at h
  · cases h
  · rename_i cs hminus
    obtain ⟨i, hi, -⟩ := Option.map_eq_some_iff.mp h
    unfold Text.integer? at hi
    obtain ⟨hi, hbound⟩ := Option.filter_eq_some_iff.mp hi
    split at hi
    · rename_i digits hcs
      exact absurd hcs (hminus digits)
    · rename_i digits hcs
      obtain ⟨m, hm, hlt⟩ := hread hi hbound
      exact ⟨digits, m, .inr hcs, hm, hlt⟩
    · obtain ⟨m, hm, hlt⟩ := hread hi hbound
      exact ⟨text.toList, m, .inl rfl, hm, hlt⟩

namespace Parser

theorem isParameter_parameterName {c : Cursor} (h : (parameterName c).value.isEmpty = false) :
    IsParameter (parameterName c).value := by
  have hname := (Prod.ext_iff.mp (parameterName_eq c)).1
  dsimp only at hname
  rw [hname] at h ⊢
  split_ifs at h ⊢ with hquestion hstart
  · exact .inl rfl
  · cases hrest : c.rest with
    | nil => simp [hrest] at hstart
    | cons x r =>
      rw [hrest, List.head?_cons, Option.any_some] at hstart
      refine .inr (isName_iff.1 ?_)
      rw [String.toList_ofList, List.takeWhile_cons, if_pos (isNameChar_of_isNameStart hstart), Cursor.isName, hstart,
        Bool.true_and, List.all_eq_true]
      exact fun y hy => List.mem_takeWhile_imp hy
  · cases h

/-- The value of an assignment is a word as well. -/
theorem wellFormed_assignment {word : Word} (h : Word.WellFormed word) {a : Assign} (ha : assignment? word = some a) :
    a.WellFormed := by
  unfold assignment? at ha
  split at ha
  · rename_i text rest
    dsimp only at ha
    split at ha
    · cases ha
    · rename_i x value hvalue
      split_ifs at ha with hname hempty
      · cases ha
        exact .mk (by rwa [String.toList_ofList, ← isName_iff]) h.tail
      · cases ha
        refine .mk (by rwa [String.toList_ofList, ← isName_iff]) (h.replace fun _ hnil => hempty ?_)
        rw [List.isEmpty_iff, ← String.toList_ofList (l := value), hnil]
        rfl
  · cases ha

/-- A word that is read where a command may still have assignments may be its name. -/
theorem starts_of_itemOf {s : Cursor} {found word : Word} (h : itemOf true s found = .ok (.word word)) :
    word.Starts := by
  obtain rfl := eq_of_itemOf h
  rw [itemOf, if_pos rfl] at h
  constructor
  · rintro ⟨text, hreserved, rfl⟩
    have hplain : Word.plain? [.literal text false] = some text := by simp [Word.plain?]
    split at h
    · cases h
    · rw [hplain] at h
      dsimp only at h
      rw [if_pos (List.contains_iff_mem.mpr (show text ∈ reservedWords from hreserved))] at h
      cases h
  · rintro ⟨name, value, rest, hname, rfl⟩
    rw [← isName_iff] at hname
    obtain ⟨htake, hdrop⟩ := span_name hname value
    have hassign : (assignment? (.literal (String.ofList (name ++ '=' :: value)) false :: rest)).isSome := by
      simp [assignment?, htake, hdrop, hname]
    split at h
    · cases h
    · rename_i hnone
      rw [hnone] at hassign
      cases hassign

/-- What an item has to be, where the name of the command is still to come or not. -/
def Item.WellFormed (leading : Bool) : Item → Prop
  | .assign a => a.WellFormed
  | .word w => Word.WellFormed w ∧ (leading = true → Word.Starts w)
  | .redirect r => r.WellFormed

theorem wellFormed_itemOf {leading : Bool} {s : Cursor} {w : Word} (hword : Word.WellFormed w) {i : Item}
    (h : itemOf leading s w = .ok i) : i.WellFormed leading := by
  cases i with
  | assign a =>
    unfold itemOf at h
    split at h
    · split at h
      · rename_i hassign
        cases h
        exact wellFormed_assignment hword hassign
      · split at h
        · split at h <;> cases h
        · cases h
    · cases h
  | word w =>
    obtain rfl := eq_of_itemOf h
    refine ⟨hword, fun hleading => ?_⟩
    subst hleading
    exact starts_of_itemOf h
  | redirect r => exact absurd h (itemOf_ne_redirect leading s w r)

/-- What the items of a command have to be that stand behind its name or before it. -/
structure Parts.WellFormed (named : Bool) (parts : Parts) : Prop where
  assigns : ∀ a ∈ parts.1, a.WellFormed
  words : ∀ word ∈ parts.2.1, Word.WellFormed word
  redirects : ∀ r ∈ parts.2.2, r.WellFormed
  first : named = false → ∀ word ∈ parts.2.1.head?, Word.Starts word

theorem wellFormed_onto {named : Bool} {i : Item} {parts : Parts}
    (h : parts.WellFormed (named || i matches .word _)) (hi : i.WellFormed (!named)) :
    (i.onto parts).WellFormed named := by
  obtain ⟨assigns, words, redirects⟩ := parts
  obtain ⟨hassigns, hwords, hredirects, hfirst⟩ := h
  cases i with
  | assign a =>
    rw [Bool.or_false] at hfirst
    exact ⟨List.forall_mem_cons.mpr ⟨hi, hassigns⟩, hwords, hredirects, hfirst⟩
  | word w =>
    refine ⟨hassigns, List.forall_mem_cons.mpr ⟨hi.1, hwords⟩, hredirects, fun hnamed word hword => ?_⟩
    subst hnamed
    cases hword
    exact hi.2 rfl
  | redirect r =>
    rw [Bool.or_false] at hfirst
    exact ⟨hassigns, hwords, List.forall_mem_cons.mpr ⟨hi, hredirects⟩, hfirst⟩

theorem onto_ne_nil (i : Item) (parts : Parts) :
    (i.onto parts).1 ≠ [] ∨ (i.onto parts).2.1 ≠ [] ∨ (i.onto parts).2.2 ≠ [] := by
  obtain ⟨assigns, words, redirects⟩ := parts
  cases i with
  | assign a => exact .inl (List.cons_ne_nil _ _)
  | word w => exact .inr (.inl (List.cons_ne_nil _ _))
  | redirect r => exact .inr (.inr (List.cons_ne_nil _ _))

/-! ## The functions of the parser -/

mutual

theorem wellFormed_statements {closer : Closer} {c e : Cursor} {script : Script}
    (h : seen (statements closer c) = .ok (script, e)) : ∀ s ∈ script, s.WellFormed := by
  -- the induction is on what is left to read; functions that call each other on the same rest are told
  -- apart by their place in the grammar
  obtain ⟨-, rfl, -⟩ | ⟨-, -, first, rest, d, more, hlist, -, hmore, rfl⟩ := statements_cases h
  · simp
  · have := c.size_skipSeparators_le
    have := lt_of_passed hlist
    have := d.size_skipBlanks_le
    obtain ⟨hfirst, hrest⟩ := wellFormed_andOr hlist
    exact List.forall_mem_cons.mpr ⟨.mk hfirst hrest, wellFormed_statements hmore⟩
termination_by 16 * c.size + 9
decreasing_by all_goals omega

theorem wellFormed_andOr {c e : Cursor} {first : Pipeline} {rest : List Link}
    (h : passed (andOr c) = .ok ((first, rest), e)) :
    first.WellFormed ∧ ∀ link ∈ rest, link.pipeline.WellFormed := by
  rw [passed_andOr] at h
  obtain ⟨⟨p, d⟩, hp, h⟩ := eq_ok_of_bind h
  obtain ⟨⟨ls, f⟩, hlinks, h⟩ := eq_ok_of_bind h
  cases h
  have := lt_of_passed hp
  exact ⟨wellFormed_pipeline hp, wellFormed_links hlinks⟩
termination_by 16 * c.size + 8
decreasing_by all_goals omega

theorem wellFormed_links {c e : Cursor} {rest : List Link} (h : seen (links c) = .ok (rest, e)) :
    ∀ link ∈ rest, link.pipeline.WellFormed := by
  rw [seen_links] at h
  cases hconnector : connector? c.skipBlanks with
  | none =>
    rw [hconnector] at h
    cases h
    simp
  | some connector =>
    rw [hconnector] at h
    obtain ⟨⟨next, d⟩, hnext, h⟩ := eq_ok_of_bind h
    obtain ⟨⟨more, f⟩, hmore, h⟩ := eq_ok_of_bind h
    cases h
    -- the connector has two characters, so the next pipeline is read from a shorter rest
    have := two_le_of_connector hconnector
    have := c.size_skipBlanks_le
    have := c.skipBlanks.step.size_step_le
    have := size_step_of_pos (c := c.skipBlanks) (by omega)
    have := c.skipBlanks.step.step.size_skipLinebreaks_le
    have := lt_of_passed hnext
    exact List.forall_mem_cons.mpr ⟨wellFormed_pipeline hnext, wellFormed_links hmore⟩
termination_by 16 * c.size + 8
decreasing_by all_goals omega

theorem wellFormed_pipeline {c e : Cursor} {p : Pipeline} (h : passed (pipeline c) = .ok (p, e)) :
    p.WellFormed := by
  rw [passed_pipeline] at h
  obtain ⟨⟨first, d⟩, hfirst, h⟩ := eq_ok_of_bind h
  obtain ⟨⟨more, f⟩, hmore, h⟩ := eq_ok_of_bind h
  cases h
  have := c.size_skipBlanks_le
  have := size_afterBang_le c.skipBlanks
  have := lt_of_passed hfirst
  exact .mk (List.cons_ne_nil _ _) (List.forall_mem_cons.mpr ⟨wellFormed_command hfirst, wellFormed_piped hmore⟩)
termination_by 16 * c.size + 7
decreasing_by all_goals omega

theorem wellFormed_piped {c e : Cursor} {commands : List Command} (h : seen (piped c) = .ok (commands, e)) :
    ∀ command ∈ commands, command.WellFormed := by
  rw [seen_piped] at h
  cases hpipe : atPipe c.skipBlanks with
  | false =>
    rw [hpipe] at h
    cases h
    simp
  | true =>
    rw [hpipe, if_pos rfl] at h
    obtain ⟨⟨next, d⟩, hnext, h⟩ := eq_ok_of_bind h
    obtain ⟨⟨more, f⟩, hmore, h⟩ := eq_ok_of_bind h
    cases h
    have := c.size_skipBlanks_le
    have := size_step_of_pos (one_le_of_atPipe hpipe)
    have := c.skipBlanks.step.size_skipLinebreaks_le
    have := lt_of_passed hnext
    exact List.forall_mem_cons.mpr ⟨wellFormed_command hnext, wellFormed_piped hmore⟩
termination_by 16 * c.size + 7
decreasing_by all_goals omega

theorem wellFormed_command {c e : Cursor} {found : Command} (h : passed (command c) = .ok (found, e)) :
    found.WellFormed := by
  have := c.size_skipBlanks_le
  by_cases hparen : c.skipBlanks.rest.head? = some '('
  · obtain ⟨r, hr⟩ := List.head?_eq_some_iff.mp hparen
    have := Cursor.size_step hr
    rw [passed_command_subshell hr] at h
    split_ifs at h
    · cases h
    · obtain ⟨⟨script, d⟩, hscript, h⟩ := eq_ok_of_bind h
      obtain ⟨⟨redirects, f⟩, hredirects, h⟩ := eq_ok_of_bind h
      cases h
      have := le_of_seen hscript
      have := d.size_step_le
      exact .subshell (wellFormed_statements hscript) (wellFormed_trailing hredirects)
  by_cases hbrace : c.skipBlanks.atLone '\x7b' = true
  · have := size_step_of_pos (one_le_of_atLone hbrace)
    rw [passed_command_group hbrace] at h
    obtain ⟨⟨script, d⟩, hscript, h⟩ := eq_ok_of_bind h
    obtain ⟨⟨redirects, f⟩, hredirects, h⟩ := eq_ok_of_bind h
    cases h
    have := le_of_seen hscript
    have := d.size_step_le
    exact .group (wellFormed_statements hscript) (wellFormed_trailing hredirects)
  · rw [passed_command_simple hparen (Bool.eq_false_iff.mpr hbrace)] at h
    exact wellFormed_simple h
termination_by 16 * c.size + 6
decreasing_by all_goals omega

theorem wellFormed_trailing {c e : Cursor} {redirects : List Redirect} (h : seen (trailing c) = .ok (redirects, e)) :
    ∀ r ∈ redirects, r.WellFormed := by
  rw [seen_trailing] at h
  have := c.size_skipBlanks_le
  obtain ⟨_ | ⟨first, d⟩, hfirst, h⟩ := eq_ok_of_bind h
  · cases h
    simp
  · obtain ⟨⟨more, f⟩, hmore, h⟩ := eq_ok_of_bind h
    cases h
    have := lt_of_passed? hfirst
    exact List.forall_mem_cons.mpr ⟨wellFormed_redirect hfirst, wellFormed_trailing hmore⟩
termination_by 16 * c.size + 6
decreasing_by all_goals omega

theorem wellFormed_simple {c e : Cursor} {found : Command} (h : passed (simple c) = .ok (found, e)) :
    found.WellFormed := by
  rw [passed_simple] at h
  obtain ⟨⟨_ | ⟨i, d⟩, s⟩, hitem, h⟩ := eq_ok_of_bind h
  · cases h
  · obtain ⟨⟨parts, f⟩, hitems, h⟩ := eq_ok_of_bind h
    cases h
    have := lt_of_found hitem
    -- no item stands before the first one, so the name of the command is still to come
    have hparts : (i.onto parts).WellFormed false := wellFormed_onto (wellFormed_items hitems) (wellFormed_item hitem)
    exact .simple (onto_ne_nil i parts) hparts.assigns hparts.words hparts.redirects (hparts.first rfl)
termination_by 16 * c.size + 5
decreasing_by all_goals omega

theorem wellFormed_items {named : Bool} {c e : Cursor} {parts : Parts} (h : seen (items named c) = .ok (parts, e)) :
    parts.WellFormed named := by
  rw [seen_items] at h
  obtain ⟨⟨_ | ⟨i, d⟩, s⟩, hitem, h⟩ := eq_ok_of_bind h
  · cases h
    exact ⟨by simp, by simp, by simp, by simp⟩
  · obtain ⟨⟨more, f⟩, hitems, h⟩ := eq_ok_of_bind h
    cases h
    have := lt_of_found hitem
    exact wellFormed_onto (wellFormed_items hitems) (wellFormed_item hitem)
termination_by 16 * c.size + 5
decreasing_by all_goals omega

theorem wellFormed_item {leading : Bool} {c s e : Cursor} {i : Item}
    (h : found (item? leading c) = .ok (some (i, e), s)) : i.WellFormed leading := by
  have := c.size_skipBlanks_le
  rw [found_item] at h
  split at h
  · cases h
  · split_ifs at h
    · cases h
    · cases h
    · obtain ⟨_ | ⟨redirect, d⟩, hredirect, h⟩ := eq_ok_of_bind h
      · obtain ⟨⟨parts, d⟩, hpiece, h⟩ := eq_ok_of_bind h
        obtain ⟨⟨more, f⟩, hmore, h⟩ := eq_ok_of_bind h
        obtain ⟨i, hitem, h⟩ := eq_ok_of_bind h
        cases h
        have := lt_of_passed hpiece
        exact wellFormed_itemOf (.foldr (wellFormed_piece hpiece) (wellFormed_word hmore)) hitem
      · cases h
        exact wellFormed_redirect hredirect
termination_by 16 * c.size + 4
decreasing_by all_goals omega

theorem wellFormed_redirect {c e : Cursor} {r : Redirect} (h : passed? (redirect? c) = .ok (some (r, e))) :
    r.WellFormed := by
  rw [passed?_redirect] at h
  obtain ⟨_ | ⟨⟨fd, kind⟩, s⟩, hoperator, h⟩ := eq_ok_of_bind h
  · cases h
  · obtain ⟨⟨target, d⟩, hword, h⟩ := eq_ok_of_bind h
    have := lt_of_passed? hoperator
    have := s.size_skipBlanks_le
    have htarget := wellFormed_word hword
    dsimp only at h
    split_ifs at h with hempty hnumber
    · cases h
    · cases h
    · cases h
      have hsome : target ≠ [] := fun hnil => hempty (List.isEmpty_iff.mpr hnil)
      refine .mk hsome htarget fun hkind => ?_
      subst hkind
      -- the parser has read the target of a duplication as a number
      obtain ⟨text, hplain, hdescriptor⟩ :
          ∃ text, Word.plain? target = some text ∧ ¬ descriptor? text.toList = none := by simpa using hnumber
      obtain ⟨n, hn⟩ := Option.ne_none_iff_exists'.mp hdescriptor
      exact ⟨text, htarget.eq_literal hsome hplain, isDescriptor_of_descriptor? hn⟩
termination_by 16 * c.size + 3
decreasing_by all_goals omega

theorem wellFormed_word {inDefault : Bool} {c e : Cursor} {w : Word} (h : seen (word inDefault c) = .ok (w, e)) :
    Word.WellFormed w := by
  cases hrest : c.rest with
  | nil =>
    rw [word_nil hrest] at h
    cases h
    exact .nil
  | cons x r =>
    cases hx : continues inDefault x with
    | false =>
      rw [word_stop hrest hx] at h
      cases h
      exact .nil
    | true =>
      rw [word_step hrest hx] at h
      obtain ⟨⟨parts, d⟩, hpiece, h⟩ := eq_ok_of_bind h
      obtain ⟨⟨more, f⟩, hmore, h⟩ := eq_ok_of_bind h
      cases h
      have := lt_of_passed hpiece
      exact .foldr (wellFormed_piece hpiece) (wellFormed_word hmore)
termination_by 16 * c.size + 2
decreasing_by all_goals omega

theorem wellFormed_piece {c e : Cursor} {parts : Word} (h : passed (piece c) = .ok (parts, e)) :
    ∀ part ∈ parts, part.WellFormed := by
  cases hrest : c.rest with
  | nil =>
    rw [piece_nil hrest] at h
    cases h
  | cons x r =>
    cases hx : isSpecial x with
    | false =>
      rw [piece_plain hrest hx] at h
      cases h
      exact List.forall_mem_singleton.mpr (.char x false)
    | true =>
      have := Cursor.size_step hrest
      simp only [isSpecial, Bool.or_eq_true, beq_iff_eq] at hx
      obtain (((rfl | rfl) | rfl) | rfl) | rfl := hx
      · cases r with
        | nil =>
          rw [piece_backslash hrest] at h
          cases h
          exact List.forall_mem_singleton.mpr (.literal fun _ => by decide)
        | cons y r =>
          by_cases hy : y = '\n'
          · subst hy
            rw [piece_continuation hrest] at h
            cases h
            simp
          · rw [piece_escape hrest hy] at h
            cases h
            exact List.forall_mem_singleton.mpr (.quoted _)
      · rw [piece_single hrest] at h
        obtain ⟨⟨text, d⟩, -, h⟩ := eq_ok_of_bind h
        cases h
        exact List.forall_mem_singleton.mpr (.quoted _)
      · rw [piece_double hrest] at h
        obtain ⟨⟨quotation, d⟩, hdouble, h⟩ := eq_ok_of_bind h
        cases h
        -- an empty quoted literal stands in front, for the quotes may hold nothing
        exact (Word.WellFormed.cons (.quoted _) (wellFormed_doubleQuoted hdouble)).parts
      · rw [piece_dollar hrest] at h
        obtain ⟨⟨part, d⟩, hdollar, h⟩ := eq_ok_of_bind h
        cases h
        exact List.forall_mem_singleton.mpr (wellFormed_dollar hrest hdollar)
      · rw [piece_backtick hrest] at h
        cases h
termination_by 16 * c.size + 1
decreasing_by all_goals omega

theorem wellFormed_doubleQuoted {start c e : Cursor} {w : Word} (h : seen (doubleQuoted start c) = .ok (w, e)) :
    Word.WellFormed w := by
  cases hrest : c.rest with
  | nil =>
    rw [doubleQuoted_nil hrest] at h
    cases h
  | cons x r =>
    have hone := Cursor.rest_step hrest
    have := Cursor.size_step hrest
    by_cases hclose : x = '"'
    · subst hclose
      rw [doubleQuoted_close hrest] at h
      cases h
      exact .nil
    by_cases hdollar : x = '$'
    · subst hdollar
      rw [doubleQuoted_dollar hrest] at h
      obtain ⟨⟨part, d⟩, hpart, h⟩ := eq_ok_of_bind h
      obtain ⟨⟨more, f⟩, hmore, h⟩ := eq_ok_of_bind h
      cases h
      have := lt_of_passed hpart
      exact .cons (wellFormed_dollar hrest hpart) (wellFormed_doubleQuoted hmore)
    by_cases hbacktick : x = '\x60'
    · subst hbacktick
      rw [doubleQuoted_backtick hrest] at h
      cases h
    by_cases hescape : x = '\\' ∧ r ≠ []
    · obtain ⟨rfl, hne⟩ := hescape
      obtain ⟨y, r, rfl⟩ := List.exists_cons_of_ne_nil hne
      have := Cursor.size_step hone
      rw [doubleQuoted_escape hrest] at h
      split_ifs at h
      · exact wellFormed_doubleQuoted h
      · obtain ⟨⟨more, f⟩, hmore, h⟩ := eq_ok_of_bind h
        cases h
        exact .cons (.quoted _) (wellFormed_doubleQuoted hmore)
      · obtain ⟨⟨more, f⟩, hmore, h⟩ := eq_ok_of_bind h
        cases h
        exact .cons (.quoted _) (wellFormed_doubleQuoted hmore)
    · have hr : x = '\\' → r = [] := fun hx => Decidable.not_not.1 fun hne => hescape ⟨hx, hne⟩
      rw [doubleQuoted_plain hrest ⟨hclose, hdollar, hbacktick⟩ hr] at h
      obtain ⟨⟨more, f⟩, hmore, h⟩ := eq_ok_of_bind h
      cases h
      exact .cons (.quoted _) (wellFormed_doubleQuoted hmore)
termination_by 16 * c.size + 1
decreasing_by all_goals omega

theorem wellFormed_dollar {quoted : Bool} {c e : Cursor} {part : Part} {r : List Char} (hrest : c.rest = '$' :: r)
    (h : passed (dollar quoted c) = .ok (part, e)) : part.WellFormed := by
  have hone := Cursor.rest_step hrest
  have := Cursor.size_step hrest
  by_cases halone : ∀ x ∈ r.head?, x ≠ '\x7b' ∧ x ≠ '(' ∧ startsParameter x = false
  · rw [dollar_alone hrest halone] at h
    cases h
    exact .literal fun _ => by decide
  cases r with
  | nil => exact absurd nofun halone
  | cons x r =>
    have := Cursor.size_step hone
    by_cases hbrace : x = '\x7b'
    · subst hbrace
      rw [dollar_brace hrest] at h
      have := (parameterName c.step.step).le
      split_ifs at h with hempty hclose hdefault
      · cases h
      · cases h
        exact .param (isParameter_parameterName (Bool.eq_false_iff.mpr hempty)) nofun
      · obtain ⟨⟨fallback, f⟩, hword, h⟩ := eq_ok_of_bind h
        dsimp only at h
        split_ifs at h with hend
        · cases h
          have := (parameterName c.step.step).next.size_step_le
          have := (parameterName c.step.step).next.step.size_step_le
          refine .param (isParameter_parameterName (Bool.eq_false_iff.mpr hempty)) fun word hfallback => ?_
          cases hfallback
          exact wellFormed_word hword
        · cases h
      · cases h
    by_cases hparen : x = '('
    · subst hparen
      rw [dollar_paren hrest] at h
      split_ifs at h
      · cases h
      · obtain ⟨⟨script, d⟩, hscript, h⟩ := eq_ok_of_bind h
        cases h
        exact .subst (wellFormed_statements hscript)
    · have hname : startsParameter x = true := by
        cases hx : startsParameter x with
        | true => rfl
        | false => exact absurd (fun y hy => by cases hy; exact ⟨hbrace, hparen, hx⟩) halone
      rw [dollar_name hrest hname] at h
      cases h
      exact .param (isParameter_parameterName (parameterName_of_start hone hname)) nofun
termination_by 16 * c.size
decreasing_by all_goals omega

end

end Parser

/-- Whatever source is read, the statements that are read are well formed. -/
theorem Script.ofString_wellFormed {source : String} {script : Script} (h : Script.ofString source = .ok script) :
    ∀ s ∈ script, s.WellFormed := by
  rw [Script.ofString_eq] at h
  cases hread : Parser.seen (Parser.statements .endOfText (.ofString source)) with
  | error e =>
    rw [hread] at h
    cases h
  | ok p =>
    rw [hread] at h
    cases h
    exact Parser.wellFormed_statements hread

/-- `A=$(b | c) d"${E:-f}" >&2` -/
def nestedScript : Script :=
  [⟨⟨false, [.simple
    [⟨"A", [.subst [⟨⟨false, [.simple [] [[.literal "b" false]] [], .simple [] [[.literal "c" false]] []]⟩, [],
      "b | c", 1⟩] false]⟩]
    [[.literal "d" false, .literal "" true, .param "E" (some [.literal "f" false]) true]]
    [⟨1, .duplicate, [.literal "2" false]⟩]]⟩, [], "A=$(b | c) d\"$\x7bE:-f\x7d\" >&2", 1⟩]

theorem nestedScript_wellFormed :
    Script.ofString "A=$(b | c) d\"$\x7bE:-f\x7d\" >&2" = .ok nestedScript ∧ ∀ s ∈ nestedScript, s.WellFormed := by
  have hread : Script.ofString "A=$(b | c) d\"$\x7bE:-f\x7d\" >&2" = .ok nestedScript := by with_unfolding_all rfl
  exact ⟨hread, Script.ofString_wellFormed hread⟩

end Taskwork.Shell
