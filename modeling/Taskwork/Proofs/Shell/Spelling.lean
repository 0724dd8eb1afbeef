/-
How a word is written. The grammar says of each character of a source what it adds to the word that
is read; just what is in quotes or after a backslash becomes quoted text, and in double quotes what
an expansion adds is quoted as well. Whatever the parser reads as a word is written so.
-/
import Taskwork.Proofs.Shell.Composition
import Mathlib.Data.List.TakeWhile

namespace Taskwork.Shell

mutual

/-- A word is written in a text up to where the rest of the text starts. -/
inductive Spells : List Char → Word → List Char → Prop where
  | nil {text : List Char} : Spells text [] text
  | bare {c : Char} {text rest : List Char} {word : Word} (hc : Parser.isSpecial c = false)
    (h : Spells text word rest) : Spells (c :: text) (Word.cons (.literal c.toString false) word) rest
  /-- A backslash at the end of all text. -/
  | backslash : Spells ['\\'] [.literal "\\" false] []
  | joined {text rest : List Char} {word : Word} (h : Spells text word rest) :
    Spells ('\\' :: '\n' :: text) word rest
  | escaped {c : Char} {text rest : List Char} {word : Word} (hc : c ≠ '\n') (h : Spells text word rest) :
    Spells ('\\' :: c :: text) (Word.cons (.literal c.toString true) word) rest
  | single {quotation text rest : List Char} {word : Word} (hq : '\'' ∉ quotation) (h : Spells text word rest) :
    Spells ('\'' :: (quotation ++ '\'' :: text)) (Word.cons (.literal (String.ofList quotation) true) word) rest
  | double {text after rest : List Char} {quotation word : Word} (hq : Quotes text quotation after)
    (h : Spells after word rest) :
    Spells ('"' :: text) ((Word.cons (.literal "" true) quotation).foldr Word.cons word) rest
  | expansion {text after rest : List Char} {part : Part} {word : Word} (he : Expands false text part after)
    (h : Spells after word rest) : Spells ('$' :: text) (Word.cons part word) rest

/-- The same within double quotes, up to and over the closing one. -/
inductive Quotes : List Char → Word → List Char → Prop where
  | close {text : List Char} : Quotes ('"' :: text) [] text
  | char {c : Char} {text rest : List Char} {word : Word} (hc : c ≠ '"' ∧ c ≠ '$' ∧ c ≠ '\x60' ∧ c ≠ '\\')
    (h : Quotes text word rest) : Quotes (c :: text) (Word.cons (.literal c.toString true) word) rest
  | joined {text rest : List Char} {word : Word} (h : Quotes text word rest) :
    Quotes ('\\' :: '\n' :: text) word rest
  | escaped {c : Char} {text rest : List Char} {word : Word} (hc : Parser.isEscapable c = true)
    (h : Quotes text word rest) : Quotes ('\\' :: c :: text) (Word.cons (.literal c.toString true) word) rest
  /-- Before any other character a backslash is one. -/
  | backslash {c : Char} {text rest : List Char} {word : Word} (hc : Parser.isEscapable c = false) (hn : c ≠ '\n')
    (h : Quotes (c :: text) word rest) : Quotes ('\\' :: c :: text) (Word.cons (.literal "\\" true) word) rest
  | expansion {text after rest : List Char} {part : Part} {word : Word} (he : Expands true text part after)
    (h : Quotes after word rest) : Quotes ('$' :: text) (Word.cons part word) rest

/-- What a `$` starts, within double quotes or not. -/
inductive Expands : Bool → List Char → Part → List Char → Prop where
  | alone {quoted : Bool} {text : List Char}
    (h : ∀ c ∈ text.head?, c ≠ '\x7b' ∧ c ≠ '(' ∧ Parser.startsParameter c = false) :
    Expands quoted text (.literal "$" quoted) text
  | name {quoted : Bool} {name text : List Char} (hname : name ≠ []) :
    Expands quoted (name ++ text) (.param (String.ofList name) none quoted) text
  | braced {quoted : Bool} {name text : List Char} (hname : name ≠ []) :
    Expands quoted ('\x7b' :: (name ++ '\x7d' :: text)) (.param (String.ofList name) none quoted) text
  | fallback {quoted : Bool} {name text rest : List Char} {word : Word} (hname : name ≠ [])
    (h : Spells text word ('\x7d' :: rest)) :
    Expands quoted ('\x7b' :: (name ++ ':' :: '-' :: text)) (.param (String.ofList name) (some word) quoted) rest
  /-- The script of a substitution is read as scripts are. -/
  | substitution {quoted : Bool} {c e : Cursor} {script : Script}
    (h : Parser.seen (Parser.statements .paren c) = .ok (script, e)) :
    Expands quoted ('(' :: c.rest) (.subst script quoted) e.step.rest

end

namespace Parser

theorem eq_ok_of_bind {α β : Type} {x : Except SyntaxError α} {f : α → Except SyntaxError β} {b : β}
    (h : (x >>= f) = .ok b) : ∃ a, x = .ok a ∧ f a = .ok b := by
  cases x with
  | error e => cases h
  | ok a => exact ⟨a, rfl, h⟩

theorem spells_single {c e : Cursor} {r : List Char} {text : String} (hrest : c.rest = '\'' :: r)
    (h : passed (singleQuoted c) = .ok (text, e)) :
    ∃ quotation, '\'' ∉ quotation ∧ text = String.ofList quotation ∧ r = quotation ++ '\'' :: e.rest := by
  have hstep := Cursor.rest_step hrest
  rw [passed_singleQuoted] at h
  split at h
  · cases h
  · rename_i hclosed
    have hafter : (c.step.skipWhile (· != '\'')).rest = r.dropWhile (· != '\'') := by
      rw [Cursor.rest_skipWhile, hstep]
    cases hdrop : r.dropWhile (· != '\'') with
    | nil =>
      rw [hafter, hdrop] at hclosed
      exact absurd rfl hclosed
    | cons x after =>
      obtain rfl : x = '\'' := by
        have := List.head?_dropWhile_not (· != '\'') r
        rw [hdrop] at this
        simpa using this
      cases h
      refine ⟨r.takeWhile (· != '\''), fun hmem => ?_, by rw [hstep], ?_⟩
      · simpa using List.mem_takeWhile_imp hmem
      · rw [Cursor.rest_step (hafter.trans hdrop), ← hdrop, List.takeWhile_append_dropWhile]

theorem spells_parameterName {c : Cursor} (h : (parameterName c).value.isEmpty = false) :
    ∃ name, name ≠ [] ∧ (parameterName c).value = String.ofList name ∧
      c.rest = name ++ (parameterName c).next.rest := by
  have heq := parameterName_eq c
  generalize (parameterName c).value = value, (parameterName c).next = next at heq h ⊢
  cases hrest : c.rest with
  | nil =>
    rw [hrest] at heq
    cases heq
    cases h
  | cons x r =>
    rw [hrest] at heq
    split at heq
    · rename_i hq
      cases heq
      refine ⟨['?'], nofun, rfl, ?_⟩
      rw [Cursor.rest_step hrest, show x = '?' by simpa using hq]
      rfl
    · split at heq
      · rename_i hstart
        cases heq
        refine ⟨(x :: r).takeWhile Cursor.isNameChar, ?_, rfl, ?_⟩
        · rintro hnil
          rw [hnil] at h
          cases h
        · rw [Cursor.rest_skipWhile, hrest, List.takeWhile_append_dropWhile]
      · cases heq
        cases h

theorem parameterName_of_start {c : Cursor} {x : Char} {r : List Char} (hrest : c.rest = x :: r)
    (hx : startsParameter x = true) : (parameterName c).value.isEmpty = false := by
  have heq := (Prod.ext_iff.mp (parameterName_eq c)).1
  dsimp only at heq
  rw [heq, hrest]
  rw [startsParameter, Bool.or_eq_true] at hx
  rcases hx with hx | hx
  · rw [if_pos (by simpa using hx)]
    rfl
  · rw [List.head?_cons, Option.any_some, if_pos hx, List.takeWhile_cons, if_pos (isNameChar_of_isNameStart hx)]
    split_ifs
    · rfl
    · simp

theorem eq_of_isPrefixOf {cs : List Char} {c : Cursor} (h : cs.isPrefixOf c.rest = true) :
    ∃ r, c.rest = cs ++ r := by
  obtain ⟨r, hr⟩ := List.isPrefixOf_iff_prefix.mp h
  exact ⟨r, hr.symm⟩

mutual

theorem spells_word {inDefault : Bool} {c e : Cursor} {w : Word} (h : seen (word inDefault c) = .ok (w, e)) :
    Spells c.rest w e.rest := by
  cases hrest : c.rest with
  | nil =>
    rw [word_nil hrest] at h
    cases h
    rw [hrest]
    exact .nil
  | cons x r =>
    cases hx : continues inDefault x with
    | false =>
      rw [word_stop hrest hx] at h
      cases h
      rw [hrest]
      exact .nil
    | true =>
      rw [word_step hrest hx] at h
      obtain ⟨⟨parts, d⟩, hpiece, h⟩ := eq_ok_of_bind h
      obtain ⟨⟨more, f⟩, hmore, h⟩ := eq_ok_of_bind h
      cases h
      have := lt_of_passed hpiece
      rw [← hrest]
      exact spells_piece hpiece (spells_word hmore)
termination_by 16 * c.size + 2
decreasing_by all_goals omega

/-- One stretch of a word, in front of the others. -/
theorem spells_piece {c e : Cursor} {parts w : Word} {rest : List Char} (h : passed (piece c) = .ok (parts, e))
    (hmore : Spells e.rest w rest) : Spells c.rest (parts.foldr Word.cons w) rest := by
  cases hrest : c.rest with
  | nil =>
    rw [piece_nil hrest] at h
    cases h
  | cons x r =>
    have hone := Cursor.rest_step hrest
    cases hx : isSpecial x with
    | false =>
      rw [piece_plain hrest hx] at h
      cases h
      rw [hone] at hmore
      exact .bare hx hmore
    | true =>
      have := Cursor.size_step hrest
      simp only [isSpecial, Bool.or_eq_true, beq_iff_eq] at hx
      obtain (((rfl | rfl) | rfl) | rfl) | rfl := hx
      · cases r with
        | nil =>
          rw [piece_backslash hrest] at h
          cases h
          rw [hone] at hmore
          -- nothing is left for other stretches
          cases hmore
          exact .backslash
        | cons y r =>
          have htwo := Cursor.rest_step hone
          by_cases hy : y = '\n'
          · subst hy
            rw [piece_continuation hrest] at h
            cases h
            rw [htwo] at hmore
            exact .joined hmore
          · rw [piece_escape hrest hy] at h
            cases h
            rw [htwo] at hmore
            exact .escaped hy hmore
      · rw [piece_single hrest] at h
        obtain ⟨⟨text, d⟩, hsingle, h⟩ := eq_ok_of_bind h
        cases h
        obtain ⟨quotation, hq, rfl, rfl⟩ := spells_single hrest hsingle
        exact .single hq hmore
      · rw [piece_double hrest] at h
        obtain ⟨⟨quotation, d⟩, hdouble, h⟩ := eq_ok_of_bind h
        cases h
        exact .double (hone ▸ quotes_doubleQuoted hdouble) hmore
      · rw [piece_dollar hrest] at h
        obtain ⟨⟨part, d⟩, hdollar, h⟩ := eq_ok_of_bind h
        cases h
        exact .expansion (expands_dollar hrest hdollar) hmore
      · rw [piece_backtick hrest] at h
        cases h
termination_by 16 * c.size + 1
decreasing_by all_goals omega

theorem quotes_doubleQuoted {start c e : Cursor} {w : Word} (h : seen (doubleQuoted start c) = .ok (w, e)) :
    Quotes c.rest w e.rest := by
  cases hrest : c.rest with
  | nil =>
    rw [doubleQuoted_nil hrest] at h
    cases h
  | cons x r =>
    have hone := Cursor.rest_step hrest
    have := Cursor.size_step hrest
    by_cases hclose : x = '"'
    · subst hclose
      rw [doubleQuoted_close hrest] at h
      cases h
      rw [hone]
      exact .close
    by_cases hdollar : x = '$'
    · subst hdollar
      rw [doubleQuoted_dollar hrest] at h
      obtain ⟨⟨part, d⟩, hpart, h⟩ := eq_ok_of_bind h
      obtain ⟨⟨more, f⟩, hmore, h⟩ := eq_ok_of_bind h
      cases h
      have := lt_of_passed hpart
      exact .expansion (expands_dollar hrest hpart) (quotes_doubleQuoted hmore)
    by_cases hbacktick : x = '\x60'
    · subst hbacktick
      rw [doubleQuoted_backtick hrest] at h
      cases h
    by_cases hescape : x = '\\' ∧ r ≠ []
    · obtain ⟨rfl, hne⟩ := hescape
      obtain ⟨y, r, rfl⟩ := List.exists_cons_of_ne_nil hne
      have htwo := Cursor.rest_step hone
      have := Cursor.size_step hone
      rw [doubleQuoted_escape hrest] at h
      split_ifs at h with hn hy
      · obtain rfl : y = '\n' := beq_iff_eq.mp hn
        exact .joined (htwo ▸ quotes_doubleQuoted h)
      · obtain ⟨⟨more, f⟩, hmore, h⟩ := eq_ok_of_bind h
        cases h
        exact .escaped hy (htwo ▸ quotes_doubleQuoted hmore)
      · obtain ⟨⟨more, f⟩, hmore, h⟩ := eq_ok_of_bind h
        cases h
        exact .backslash (Bool.eq_false_iff.mpr hy) (fun hy => hn (beq_iff_eq.mpr hy))
          (hone ▸ quotes_doubleQuoted hmore)
    · have hr : x = '\\' → r = [] := fun hx => Decidable.not_not.1 fun hne => hescape ⟨hx, hne⟩
      rw [doubleQuoted_plain hrest ⟨hclose, hdollar, hbacktick⟩ hr] at h
      obtain ⟨⟨more, f⟩, hmore, h⟩ := eq_ok_of_bind h
      cases h
      have hquotes := hone ▸ quotes_doubleQuoted hmore
      refine .char ⟨hclose, hdollar, hbacktick, fun hx => ?_⟩ hquotes
      -- at the end of the text the quotes are not closed
      rw [hr hx] at hquotes
      cases hquotes
termination_by 16 * c.size + 1
decreasing_by all_goals omega

theorem expands_dollar {quoted : Bool} {c e : Cursor} {part : Part} {r : List Char} (hrest : c.rest = '$' :: r)
    (h : passed (dollar quoted c) = .ok (part, e)) : Expands quoted r part e.rest := by
  have hone := Cursor.rest_step hrest
  have := Cursor.size_step hrest
  by_cases halone : ∀ x ∈ r.head?, x ≠ '\x7b' ∧ x ≠ '(' ∧ startsParameter x = false
  · rw [dollar_alone hrest halone] at h
    cases h
    rw [hone]
    exact .alone halone
  cases r with
  | nil => exact absurd nofun halone
  | cons x r =>
    have htwo := Cursor.rest_step hone
    have := Cursor.size_step hone
    by_cases hbrace : x = '\x7b'
    · subst hbrace
      rw [dollar_brace hrest] at h
      have hle := (parameterName c.step.step).le
      split_ifs at h with hempty hclose hdefault
      · cases h
      · cases h
        obtain ⟨name, hname, hvalue, hafter⟩ := spells_parameterName (Bool.eq_false_iff.mpr hempty)
        obtain ⟨text, htext⟩ := eq_of_isPrefixOf hclose
        rw [← htwo, hvalue, hafter, htext, Cursor.rest_step htext]
        exact .braced hname
      · obtain ⟨⟨fallback, f⟩, hword, h⟩ := eq_ok_of_bind h
        dsimp only at h
        split_ifs at h with hend
        · cases h
          obtain ⟨name, hname, hvalue, hafter⟩ := spells_parameterName (Bool.eq_false_iff.mpr hempty)
          obtain ⟨text, htext⟩ := eq_of_isPrefixOf hdefault
          obtain ⟨rest, hclosed⟩ := eq_of_isPrefixOf hend
          have := (parameterName c.step.step).next.size_step_le
          have := (parameterName c.step.step).next.step.size_step_le
          have hspells := spells_word hword
          rw [Cursor.rest_step (Cursor.rest_step htext), hclosed] at hspells
          rw [← htwo, hvalue, hafter, htext, Cursor.rest_step hclosed]
          exact .fallback hname hspells
        · cases h
      · cases h
    by_cases hparen : x = '('
    · subst hparen
      rw [dollar_paren hrest] at h
      split_ifs at h
      · cases h
      · obtain ⟨⟨script, d⟩, hscript, h⟩ := eq_ok_of_bind h
        cases h
        rw [← htwo]
        exact .substitution hscript
    · have hname : startsParameter x = true := by
        cases hx : startsParameter x with
        | true => rfl
        | false => exact absurd (fun y hy => by cases hy; exact ⟨hbrace, hparen, hx⟩) halone
      rw [dollar_name hrest hname] at h
      cases h
      obtain ⟨name, hne, hvalue, hafter⟩ := spells_parameterName (parameterName_of_start hone hname)
      rw [← hone, hvalue, hafter]
      exact .name hne
termination_by 16 * c.size
decreasing_by all_goals omega

end

theorem eq_of_itemOf {leading : Bool} {s : Cursor} {found w : Word} (h : itemOf leading s found = .ok (.word w)) :
    found = w := by
  unfold itemOf at h
  split at h
  · split at h
    · cases h
    · split at h
      · split at h <;> cases h
        rfl
      · cases h
        rfl
  · cases h
    rfl

/-- A word of a command is written where it starts. -/
theorem spells_item {leading : Bool} {c s e : Cursor} {w : Word}
    (h : found (item? leading c) = .ok (some (.word w, e), s)) : Spells s.rest w e.rest := by
  rw [found_item] at h
  split at h
  · cases h
  · split_ifs at h
    · cases h
    · cases h
    · obtain ⟨_ | ⟨redirect, d⟩, -, h⟩ := eq_ok_of_bind h
      · obtain ⟨⟨parts, d⟩, hpiece, h⟩ := eq_ok_of_bind h
        obtain ⟨⟨more, f⟩, hmore, h⟩ := eq_ok_of_bind h
        obtain ⟨i, hitem, h⟩ := eq_ok_of_bind h
        cases h
        obtain rfl := eq_of_itemOf hitem
        exact spells_piece hpiece (spells_word hmore)
      · cases h

end Parser
end Taskwork.Shell
