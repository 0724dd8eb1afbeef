/-
Quoting can be trusted: a command written with quoted values is read back as that one command, and
its words expand to those values in every state and with every file around. A quoted value is one
literal to the parser, by induction on its text, where the invariant inside single quotes is the
stretch since the quote was last opened; and a literal is neither split nor matched against files.
-/
import Taskwork.Proofs.Shell.Reading
import Taskwork.Proofs.Stateful
import Taskwork.Shell.Interpreter
import Taskwork.Shell.Quoted

namespace Taskwork.Shell

/-! ## Harmless characters -/

/-- A character that may stand in a script as it is. -/
def harmless (c : Char) : Bool := c.isAlphanum || harmlessMarks.contains c

theorem isHarmless_iff {cs : List Char} :
    isHarmless cs = true ↔ cs ≠ [] ∧ ∀ c ∈ cs, harmless c = true := by
  unfold isHarmless harmless
  rw [Bool.and_eq_true, List.all_eq_true]
  cases cs <;> simp

theorem ne_of_harmless {x y : Char} (hx : harmless x = true) (hy : harmless y = false) : x ≠ y := by
  rintro rfl
  exact absurd (hx.symm.trans hy) (by decide)

theorem isMeta_of_harmless {x : Char} (hx : harmless x = true) : Cursor.isMeta x = false := by
  unfold Cursor.isMeta Cursor.isBlank
  simp only [Bool.or_eq_false_iff, beq_eq_false_iff_ne]
  refine ⟨⟨⟨⟨⟨⟨⟨⟨⟨⟨?_, ?_⟩, ?_⟩, ?_⟩, ?_⟩, ?_⟩, ?_⟩, ?_⟩, ?_⟩, ?_⟩, ?_⟩ <;>
    exact ne_of_harmless hx (by decide)

theorem isSpecial_of_harmless {x : Char} (hx : harmless x = true) : Parser.isSpecial x = false := by
  unfold Parser.isSpecial
  simp only [Bool.or_eq_false_iff, beq_eq_false_iff_ne]
  refine ⟨⟨⟨⟨?_, ?_⟩, ?_⟩, ?_⟩, ?_⟩ <;> exact ne_of_harmless hx (by decide)

/-- The characters that a quoted value starts with. -/
def opens (x : Char) : Bool := x == '\'' || harmless x

theorem ne_of_opens {x y : Char} (hx : opens x = true) (hy : opens y = false) : x ≠ y := by
  rintro rfl
  exact absurd (hx.symm.trans hy) (by decide)

theorem isMeta_of_opens {x : Char} (hx : opens x = true) : Cursor.isMeta x = false := by
  unfold opens at hx
  rw [Bool.or_eq_true, beq_iff_eq] at hx
  rcases hx with rfl | hx
  · decide
  · exact isMeta_of_harmless hx

/-! ## The text of a quoted value -/

theorem toList_quote (v : String) :
    (quote v).toList =
      if isHarmless v.toList then v.toList else '\'' :: escapeSingle v.toList ++ ['\''] := by
  unfold quote
  split
  · rfl
  · exact String.toList_ofList

theorem quote_opens (v : String) : ∃ x r, (quote v).toList = x :: r ∧ opens x = true := by
  rw [toList_quote]
  split
  · rename_i h
    obtain ⟨hne, hall⟩ := isHarmless_iff.mp h
    obtain ⟨x, r, hv⟩ := List.exists_cons_of_ne_nil hne
    refine ⟨x, r, hv, ?_⟩
    unfold opens
    rw [hall x (hv ▸ List.mem_cons_self), Bool.or_true]
  · exact ⟨'\'', _, rfl, rfl⟩

/-- The word that a quoted value is read as. -/
def quotedWord (v : String) : Word := [.literal v (!isHarmless v.toList)]

/-- The text of a value and of those after it in a command. -/
def argumentText (vs : List String) : List Char := vs.flatMap fun v => ' ' :: (quote v).toList

/-- Where an argument ends: at the end of the text, or before a blank. -/
def Ends (tail : List Char) : Prop := tail = [] ∨ ∃ r, tail = ' ' :: r

theorem ends_argumentText (vs : List String) : Ends (argumentText vs) := by
  cases vs with
  | nil => exact .inl rfl
  | cons v vs => exact .inr ⟨_, rfl⟩

theorem toList_intercalate (t : String) (ts : List String) :
    ' ' :: (" ".intercalate (t :: ts)).toList = (t :: ts).flatMap fun t => ' ' :: t.toList := by
  induction ts generalizing t with
  | nil => simp [String.intercalate_singleton]
  | cons u ts ih =>
    rw [String.intercalate_cons_cons, List.flatMap_cons, ← ih u]
    simp

theorem argumentText_eq (vs : List String) :
    argumentText vs = (vs.map quote).flatMap fun t => ' ' :: t.toList := by
  rw [List.flatMap_map]; rfl

/-! ## Places -/

namespace Cursor

theorem rest_advance (n : Nat) (c : Cursor) : (c.advance n).rest = c.rest.drop n := by
  induction n generalizing c with
  | zero => rfl
  | succ n ih =>
    rw [advance, ih]
    cases h : c.rest with
    | nil => simp [step, h]
    | cons x r => rw [rest_step h, List.drop_succ_cons]

theorem rest_skipWhile (p : Char → Bool) (c : Cursor) : (c.skipWhile p).rest = c.rest.dropWhile p := by
  rw [skipWhile, rest_advance]
  induction c.rest with
  | nil => rfl
  | cons x r ih =>
    rw [List.takeWhile_cons, List.dropWhile_cons]
    split
    · exact ih
    · rfl

theorem gap_opens (between : Char → Bool) {x : Char} {r : List Char} (hx : opens x = true)
    (hb : between x = false) : gap between false (x :: r) = 0 := by
  have hblank : isBlank x = false := by
    have := isMeta_of_opens hx
    unfold isMeta at this
    simp only [Bool.or_eq_false_iff] at this
    exact this.1.1.1.1.1.1.1.1
  rw [gap]
  · rw [if_neg (ne_of_opens hx (by decide)), hblank, hb]
    rfl
  · rintro r rfl
    exact absurd hx (by decide)

theorem skipBlanks_nil {c : Cursor} (h : c.rest = []) : c.skipBlanks = c := by
  rw [skipBlanks, h]; rfl

theorem skipBlanks_opens {c : Cursor} {x : Char} {r : List Char} (h : c.rest = x :: r)
    (hx : opens x = true) : c.skipBlanks = c := by
  rw [skipBlanks, h, gap_opens _ hx rfl]; rfl

theorem skipSeparators_nil {c : Cursor} (h : c.rest = []) : c.skipSeparators = c := by
  rw [skipSeparators, h]; rfl

theorem skipSeparators_opens {c : Cursor} {x : Char} {r : List Char} (h : c.rest = x :: r)
    (hx : opens x = true) : c.skipSeparators = c := by
  rw [skipSeparators, h, gap_opens _ hx]
  · rfl
  · simp only [Bool.or_eq_false_iff, beq_eq_false_iff_ne]
    exact ⟨ne_of_opens hx (by decide), ne_of_opens hx (by decide)⟩

theorem skipBlanks_blank {c : Cursor} {x : Char} {r : List Char} (h : c.rest = ' ' :: x :: r)
    (hx : opens x = true) : c.skipBlanks.rest = x :: r := by
  rw [skipBlanks, h, rest_advance, h, gap, if_neg (by decide), if_pos (by decide), gap_opens _ hx rfl]
  · rfl
  · simp

theorem atLone_of_ne {c : Cursor} {x y : Char} {r : List Char} (h : c.rest = x :: r) (hx : x ≠ y) :
    c.atLone y = false := by
  unfold atLone
  split <;> rename_i heq <;> rw [h] at heq <;> cases heq <;> simp [hx]

end Cursor

/-! ## Words -/

namespace Parser

/-- Reading gives `a` and leaves the text `tail`. -/
def Gives {α : Type} (r : Except SyntaxError (α × Cursor)) (a : α) (tail : List Char) : Prop :=
  ∃ e, r = .ok (a, e) ∧ e.rest = tail

theorem value_of_seen {α : Type} {c e : Cursor} {r : Except SyntaxError (Reached c α)} {a : α}
    (h : seen r = .ok (a, e)) : r.map (·.value) = .ok a := by
  cases r with
  | error e => cases h
  | ok x => cases h; rfl

/-- A word is read on from what was read of it. -/
theorem word_onward {d : Bool} {c e : Cursor} {x : Char} {r tail : List Char} {front : Word} {w : Word}
    (hc : c.rest = x :: r) (hx : continues d x = true) (hp : passed (piece c) = .ok (front, e))
    (hw : Gives (seen (word d e)) w tail) : Gives (seen (word d c)) (front.foldr Word.cons w) tail := by
  obtain ⟨f, hf, hrest⟩ := hw
  refine ⟨f, ?_, hrest⟩
  rw [word_step hc hx, hp]
  simp only [bind, Except.bind, hf]
  rfl

theorem word_ends {c : Cursor} (h : Ends c.rest) : Gives (seen (word false c)) [] c.rest := by
  rcases h with h | ⟨r, h⟩
  · exact ⟨c, word_nil h, rfl⟩
  · exact ⟨c, word_stop h (by decide), rfl⟩

theorem cons_cons_literal (a b : String) (q : Bool) (w : Word) :
    Word.cons (.literal a q) (Word.cons (.literal b q) w) = Word.cons (.literal (a ++ b) q) w := by
  rcases w with _ | ⟨_ | _ | _, rest⟩
  · simp [Word.cons]
  · rename_i c q'
    by_cases h : q = q' <;> simp [Word.cons, h, String.append_assoc]
  · simp [Word.cons]
  · simp [Word.cons]

/-- A word with an unquoted text in front of it, if there is any. -/
def withText (cs : List Char) (w : Word) : Word :=
  if cs.isEmpty then w else Word.cons (.literal (String.ofList cs) false) w

theorem cons_withText (x : Char) (cs : List Char) (w : Word) :
    Word.cons (.literal x.toString false) (withText cs w) = withText (x :: cs) w := by
  have htext : String.ofList (x :: cs) = x.toString ++ String.ofList cs := by
    simp [String.ofList_cons]
  unfold withText
  cases cs with
  | nil => simp [htext]
  | cons y cs => rw [if_neg (by simp), if_neg (by simp), htext, cons_cons_literal]

theorem word_harmless {cs : List Char} (hcs : ∀ x ∈ cs, harmless x = true) {more tail : List Char}
    {w : Word} (hw : ∀ e : Cursor, e.rest = more → Gives (seen (word false e)) w tail) {c : Cursor}
    (hc : c.rest = cs ++ more) : Gives (seen (word false c)) (withText cs w) tail := by
  induction cs generalizing c with
  | nil => exact hw c hc
  | cons x cs ih =>
    obtain ⟨hx, hcs⟩ := List.forall_mem_cons.mp hcs
    have hword := ih hcs (c := c.step) (Cursor.rest_step hc)
    have hcont : continues false x = true := by
      simp [continues, isMeta_of_harmless hx]
    have := word_onward hc hcont (piece_plain hc (isSpecial_of_harmless hx)) hword
    rwa [List.foldr_cons, List.foldr_nil, cons_withText] at this

theorem singleQuoted_to {text r : List Char} (ht : '\'' ∉ text) {c : Cursor}
    (hc : c.rest = '\'' :: text ++ '\'' :: r) :
    Gives (passed (singleQuoted c)) (String.ofList text) r := by
  have hall : ∀ x ∈ text, (x != '\'') = true := by
    rintro x hx
    rw [bne_iff_ne]
    rintro rfl
    exact ht hx
  have hstep : c.step.rest = text ++ '\'' :: r := Cursor.rest_step hc
  have hs : (c.step.skipWhile (· != '\'')).rest = '\'' :: r := by
    rw [Cursor.rest_skipWhile, hstep, List.dropWhile_append_of_pos hall]
    rfl
  refine ⟨(c.step.skipWhile (· != '\'')).step, ?_, Cursor.rest_step hs⟩
  unfold singleQuoted
  dsimp only
  split <;> rename_i h
  · rw [hs] at h
    cases h
  · rw [hstep, List.takeWhile_append_of_pos hall]
    simp [passed, Except.map]

/-- Inside single quotes, with `done` the text since they were opened. -/
theorem word_escapeSingle (cs : List Char) {done : List Char} (hd : '\'' ∉ done) {tail : List Char}
    (ht : Ends tail) {c : Cursor} (hc : c.rest = '\'' :: done ++ escapeSingle cs ++ '\'' :: tail) :
    Gives (seen (word false c)) [.literal (String.ofList (done ++ cs)) true] tail := by
  induction cs generalizing done c with
  | nil =>
    have hc : c.rest = '\'' :: done ++ '\'' :: tail := by simpa [escapeSingle] using hc
    obtain ⟨e, he, hrest⟩ := singleQuoted_to hd hc
    have hp : passed (piece c) = .ok ([.literal (String.ofList done) true], e) := by
      rw [piece_single hc, he]; rfl
    have hword : Gives (seen (word false e)) [] tail := hrest ▸ word_ends (hrest.symm ▸ ht)
    simpa [Word.cons] using word_onward hc rfl hp hword
  | cons x cs ih =>
    by_cases hx : x = '\''
    · subst hx
      -- the quotes are closed before the quote, and opened again after it
      have hc : c.rest = '\'' :: done ++ '\'' :: '\\' :: '\'' :: '\'' ::
          (escapeSingle cs ++ '\'' :: tail) := by simpa [escapeSingle] using hc
      obtain ⟨e, he, hrest⟩ := singleQuoted_to hd hc
      have hp : passed (piece c) = .ok ([.literal (String.ofList done) true], e) := by
        rw [piece_single hc, he]; rfl
      have hopen : e.step.step.rest = '\'' :: [] ++ escapeSingle cs ++ '\'' :: tail := by
        rw [Cursor.rest_step (Cursor.rest_step hrest)]; rfl
      have hword := word_onward hrest rfl (piece_escape hrest (by decide))
        (ih List.not_mem_nil hopen)
      have := word_onward hc rfl hp hword
      simpa [Word.cons, String.ofList_append, String.ofList_cons] using this
    · -- the character joins the text since the quotes were opened
      have hd : '\'' ∉ done ++ [x] := by
        rw [List.mem_append, List.mem_singleton]
        rintro (h | h)
        · exact hd h
        · exact hx h.symm
      have := ih hd (c := c) (by simpa [escapeSingle, hx] using hc)
      rwa [List.append_assoc] at this

theorem word_quote (v : String) {tail : List Char} (ht : Ends tail) {c : Cursor}
    (hc : c.rest = (quote v).toList ++ tail) :
    Gives (seen (word false c)) (quotedWord v) tail := by
  rw [toList_quote] at hc
  unfold quotedWord
  cases hv : isHarmless v.toList with
  | true =>
    rw [hv, if_pos rfl] at hc
    obtain ⟨hne, hall⟩ := isHarmless_iff.mp hv
    have := word_harmless hall (fun e he => he ▸ word_ends (he.symm ▸ ht)) hc
    simpa [withText, Word.cons, hne] using this
  | false =>
    rw [hv, if_neg (by decide)] at hc
    simpa using word_escapeSingle v.toList List.not_mem_nil ht (c := c) (by simpa using hc)

/-! ## Commands -/

/-- No redirection starts where the characters after the digits start none. -/
theorem redirectOperator?_none {c : Cursor} (h : ∀ x ∈ (c.rest.dropWhile Char.isDigit).head?,
    x ≠ '&' ∧ x ≠ '>' ∧ x ≠ '<') : passed? (redirectOperator? c) = .ok none := by
  rw [← Cursor.rest_skipWhile] at h
  unfold redirectOperator?
  dsimp only
  split <;> rename_i heq
  · rw [heq] at h
    exact absurd rfl (h '&' rfl).1
  · rw [heq] at h
    exact absurd rfl (h '>' rfl).2.1
  · rw [heq] at h
    exact absurd rfl (h '<' rfl).2.2
  · rfl

/-- The first character of a quoted value that is no digit starts no redirection, nor does what
comes after a value of digits only. -/
theorem redirect?_quote (v : String) {tail : List Char} (ht : Ends tail) {c : Cursor}
    (hc : c.rest = (quote v).toList ++ tail) : passed? (redirect? c) = .ok none := by
  have hop : passed? (redirectOperator? c) = .ok none := by
    apply redirectOperator?_none
    rw [hc, toList_quote]
    split
    · rename_i hv
      obtain ⟨-, hall⟩ := isHarmless_iff.mp hv
      rw [List.dropWhile_append]
      split
      · rcases ht with rfl | ⟨r, rfl⟩
        · simp
        · simp
      · cases hd : v.toList.dropWhile Char.isDigit with
        | nil => simp_all
        | cons x r =>
          rintro y ⟨⟩
          have hx : harmless x = true := by
            apply hall
            have := (List.dropWhile_suffix Char.isDigit (l := v.toList)).subset
            rw [hd] at this
            exact this List.mem_cons_self
          exact ⟨ne_of_harmless hx (by decide), ne_of_harmless hx (by decide),
            ne_of_harmless hx (by decide)⟩
    · simp
  rw [passed?_redirect, hop]
  rfl

theorem endsCommand_opens {x : Char} {r : List Char} (hx : opens x = true) :
    endsCommand x r = false := by
  have hne {y : Char} (hy : opens y = false) : x ≠ y := ne_of_opens hx hy
  simp [endsCommand, hne (y := '\n') (by decide), hne (y := ';') (by decide),
    hne (y := '|') (by decide), hne (y := ')') (by decide), hne (y := '&') (by decide)]

/-- The next item of a command is what the word is that stands there, if that starts like a quoted
value. -/
theorem item_opens {leading : Bool} {c f : Cursor} {x : Char} {r : List Char} {w : Word}
    (hc : c.skipBlanks.rest = x :: r) (hx : opens x = true)
    (hredirect : passed? (redirect? c.skipBlanks) = .ok none)
    (hword : seen (word false c.skipBlanks) = .ok (w, f)) :
    found (item? leading c) =
      (itemOf leading c.skipBlanks w).map fun i => (some (i, f), c.skipBlanks) := by
  have hcont : continues false x = true := by simp [continues, isMeta_of_opens hx]
  exact found_item_word hc (endsCommand_opens hx) (ne_of_opens hx (by decide)) hredirect hcont hword

/-- The next item of a command is what the quoted value is that stands there. -/
theorem item_quote (leading : Bool) (v : String) {tail : List Char} (ht : Ends tail) {c : Cursor}
    (hc : c.skipBlanks.rest = (quote v).toList ++ tail) :
    ∃ e, found (item? leading c) =
        (itemOf leading c.skipBlanks (quotedWord v)).map (fun i => (some (i, e), c.skipBlanks)) ∧
      e.rest = tail := by
  obtain ⟨x, r, hq, hx⟩ := quote_opens v
  obtain ⟨f, hword, hrest⟩ := word_quote v ht hc
  have hxr : c.skipBlanks.rest = x :: (r ++ tail) := by rw [hc, hq]; rfl
  exact ⟨f, item_opens hxr hx (redirect?_quote v ht hc) hword, hrest⟩

theorem items_quotes (vs : List String) {c : Cursor} (hc : c.rest = argumentText vs) :
    Gives (seen (items true c)) ([], vs.map quotedWord, []) [] := by
  induction vs generalizing c with
  | nil =>
    have hnil : c.rest = [] := hc
    refine ⟨c, ?_, hnil⟩
    rw [seen_items, Bool.not_true, found_item, Cursor.skipBlanks_nil hnil, hnil]
    rfl
  | cons v vs ih =>
    obtain ⟨x, r, hq, hx⟩ := quote_opens v
    have hcons : c.rest = ' ' :: x :: (r ++ argumentText vs) := by
      rw [hc, argumentText, List.flatMap_cons, hq]; rfl
    have hstart : c.skipBlanks.rest = (quote v).toList ++ argumentText vs := by
      rw [Cursor.skipBlanks_blank hcons hx, hq]; rfl
    obtain ⟨e, hitem, hrest⟩ := item_quote false v (ends_argumentText vs) hstart
    obtain ⟨f, hmore, hf⟩ := ih hrest
    have hword : itemOf false c.skipBlanks (quotedWord v) = .ok (.word (quotedWord v)) := rfl
    refine ⟨f, ?_, hf⟩
    rw [seen_items, Bool.not_true, hitem, hword]
    simp only [bind, Except.bind, Except.map, Bool.true_or, hmore]
    rfl

/-- A name and quoted values behind it are one simple command, and nothing is left after it. -/
theorem simple_quotes (name : String) (hname : ∀ s, itemOf true s (quotedWord name) =
    .ok (.word (quotedWord name))) (vs : List String) {c : Cursor}
    (hc : c.rest = (quote name).toList ++ argumentText vs) :
    Gives (passed (simple c)) (.simple [] ((name :: vs).map quotedWord) []) [] := by
  obtain ⟨x, r, hq, hx⟩ := quote_opens name
  have hskip : c.skipBlanks = c := by
    rw [hq] at hc
    exact Cursor.skipBlanks_opens hc hx
  obtain ⟨e, hitem, hrest⟩ := item_quote true name (ends_argumentText vs) (hskip ▸ hc)
  obtain ⟨f, hmore, hf⟩ := items_quotes vs hrest
  refine ⟨f, ?_, hf⟩
  rw [passed_simple, hitem, hname]
  simp only [bind, Except.bind, Except.map, hmore]
  rfl

/-- What starts like a quoted value starts with a simple command. -/
theorem passed_andOr_opens {c : Cursor} {x : Char} {r : List Char} (hc : c.rest = x :: r)
    (hx : opens x = true) :
    passed (andOr c) = do
      let (first, e) ← passed (simple c)
      let (more, f) ← seen (piped e)
      let (rest, g) ← seen (links f)
      return ((⟨false, first :: more⟩, rest), g) := by
  have hskip : c.skipBlanks = c := Cursor.skipBlanks_opens hc hx
  have hlone (y : Char) (hy : opens y = false) : c.atLone y = false :=
    Cursor.atLone_of_ne hc (ne_of_opens hx hy)
  have hparen : c.rest.head? ≠ some '(' := by
    rw [hc]
    rintro ⟨⟩
    exact absurd hx (by decide)
  have hcommand : passed (command c) = passed (simple c) := by
    rw [passed_command_simple (hskip.symm ▸ hparen) (hskip.symm ▸ hlone _ (by decide)), hskip]
  have hbang : afterBang c = c := by
    rw [afterBang, if_neg (by simp [hlone '!' (by decide)])]
  rw [passed_andOr, passed_pipeline, hskip, hbang, hlone _ (by decide), hcommand]
  cases passed (simple c) with
  | error e => rfl
  | ok p =>
    simp only [bind, Except.bind]
    cases seen (piped p.2) <;> rfl

/-- A simple command behind which nothing is left is a whole list of pipelines. -/
theorem andOr_simple {c : Cursor} {x : Char} {r : List Char} (hc : c.rest = x :: r)
    (hx : opens x = true) {command : Command} (h : Gives (passed (simple c)) command []) :
    Gives (passed (andOr c)) (⟨false, [command]⟩, []) [] := by
  obtain ⟨f, hsimple, hf⟩ := h
  have hend : f.skipBlanks = f := Cursor.skipBlanks_nil hf
  have hpiped : seen (piped f) = .ok ([], f) := by
    rw [seen_piped, hend, atPipe, hf]; rfl
  have hlinks : seen (links f) = .ok ([], f) := by
    rw [seen_links, hend, connector?, hf]
  refine ⟨f, ?_, hf⟩
  rw [passed_andOr_opens hc hx, hsimple]
  simp only [bind, Except.bind, hpiped, hlinks, pure, Except.pure]

end Parser

/-- A text that is one simple command is a script of just that command. -/
theorem ofString_simple {source : String} {x : Char} {r : List Char} (hs : source.toList = x :: r)
    (hx : opens x = true) {command : Command}
    (h : Parser.Gives (Parser.passed (Parser.simple (.ofString source))) command []) :
    ∃ text line, Script.ofString source = .ok [⟨⟨false, [command]⟩, [], text, line⟩] := by
  have hcons : (Cursor.ofString source).rest = x :: r := hs
  have hskip := Cursor.skipSeparators_opens hcons hx
  obtain ⟨e, handOr, he⟩ := Parser.andOr_simple hcons hx h
  have hend : e.skipBlanks = e := Cursor.skipBlanks_nil he
  have hlast : Parser.seen (Parser.statements .endOfText e) = .ok ([], e) := by
    rw [Parser.seen_statements, Cursor.skipSeparators_nil he, Closer.holdsAt, he]
    rfl
  have hnot : Closer.holdsAt .endOfText (Cursor.ofString source) = false := by
    rw [Closer.holdsAt, hcons]; rfl
  refine ⟨Text.trim (String.ofList ((Cursor.ofString source).upTo e)), 1, ?_⟩
  rw [Script.ofString]
  apply Parser.value_of_seen (e := e)
  rw [Parser.seen_statements, hskip, hnot, hcons]
  simp only [bind, Except.bind, handOr]
  rw [hend, he, hlast]
  rfl

/-- A text of quoted values behind a name is a script of one simple command. -/
theorem ofString_quotes (name : String) (hname : ∀ s, Parser.itemOf true s (quotedWord name) =
    .ok (.word (quotedWord name))) (vs : List String) {source : String}
    (hs : source.toList = (quote name).toList ++ argumentText vs) :
    ∃ text line, Script.ofString source =
      .ok [⟨⟨false, [.simple [] ((name :: vs).map quotedWord) []]⟩, [], text, line⟩] := by
  obtain ⟨x, r, hq, hx⟩ := quote_opens name
  have hcons : source.toList = x :: (r ++ argumentText vs) := by rw [hs, hq]; rfl
  exact ofString_simple hcons hx (Parser.simple_quotes name hname vs hs)

/-! ## Expansion -/

theorem wildcard_free {cs : List Char} (h : isHarmless cs = true) :
    (cs.any fun c => c == '*' || c == '?' || c == '[') = false := by
  obtain ⟨-, hall⟩ := isHarmless_iff.mp h
  rw [List.any_eq_false]
  rintro c hc
  have hne (y : Char) (hy : harmless y = false) : (c == y) = false :=
    beq_false_of_ne (ne_of_harmless (hall c hc) hy)
  simp [hne '*' (by decide), hne '?' (by decide), hne '[' (by decide)]

/-- A quoted value is one field, which stands for no path but for the value itself. -/
theorem arguments_quotedWord (v : String) (files : Files) (directory : String) :
    (Fields.empty.push v (!isHarmless v.toList)).finish.flatMap (Field.arguments files directory) = [v] := by
  have hpresent : (Field.empty.push v (!isHarmless v.toList)).isPresent = true := by
    cases h : isHarmless v.toList with
    | false => simp [Field.isPresent, Field.push, Field.empty]
    | true =>
      obtain ⟨hne, -⟩ := isHarmless_iff.mp h
      simpa [Field.isPresent, Field.push, Field.empty] using hne
  have hplain : (Field.empty.push v (!isHarmless v.toList)).hasWildcard = false := by
    cases h : isHarmless v.toList with
    | false => simp [Field.hasWildcard, Field.push, Field.empty]
    | true => simpa [Field.hasWildcard, Field.push, Field.empty] using wildcard_free h
  have htext : (Field.empty.push v (!isHarmless v.toList)).text = v := by
    simp [Field.text, Field.push, Field.empty, String.join]
  have hfinish : (Fields.empty.push v (!isHarmless v.toList)).finish =
      [Field.empty.push v (!isHarmless v.toList)] := by
    simp only [Fields.finish, Fields.cut, Fields.push, Fields.empty, hpresent, if_true, List.nil_append]
  rw [hfinish, List.flatMap_singleton, Field.arguments, hplain, htext]
  rfl

theorem fields_quotedWords (h : Handlers) (vs : List String) (w : World) :
    Run.fields h (vs.map quotedWord) w = (.ok vs, w) := by
  induction vs with
  | nil => rw [List.map_nil, Run.fields]; rfl
  | cons v vs ih =>
    rw [List.map_cons, Run.fields, quotedWord, Run.parts, Run.parts]
    rw [Stateful.bind_ok (Stateful.pure_apply _ w),
      Stateful.bind_ok (show Act.state w = (.ok w.state, w) from rfl),
      Stateful.bind_ok (show Act.files w = (.ok w.host.files, w) from rfl),
      arguments_quotedWord, Stateful.bind_ok ih]
    rfl

/-- What is written with `quote` is one command, whose words expand to just the values. -/
theorem quoted_values_read_back (v : String) (vs : List String) :
    ∃ words text line,
      Script.ofString ("x " ++ " ".intercalate ((v :: vs).map quote)) =
        .ok [⟨⟨false, [.simple [] words []]⟩, [], text, line⟩] ∧
      ∀ (h : Handlers) (w : World), Run.fields h words w = (.ok ("x" :: v :: vs), w) := by
  have hquote : quote "x" = "x" := by decide
  have hs : ("x " ++ " ".intercalate ((v :: vs).map quote)).toList =
      (quote "x").toList ++ argumentText (v :: vs) := by
    rw [hquote, argumentText_eq, List.map_cons, ← toList_intercalate, String.toList_append]
    rfl
  obtain ⟨text, line, hread⟩ := ofString_quotes "x" (fun _ => rfl) (v :: vs) hs
  exact ⟨_, text, line, hread, fun h w => fields_quotedWords h _ w⟩

end Taskwork.Shell
