/-
Assignments with quoted values in front of a command. Each is read back as an assignment of that
very value, whatever the value is, and reading goes on behind it as it would without it; so what
is said of a command carries over to the command with assignments in front of it. What stands in a
text as one simple command and what the whole script is are the same thing.
-/
import Taskwork.Proofs.Shell.Quoting

namespace Taskwork.Shell

/-! ## Names -/

theorem harmless_of_isNameChar {x : Char} (hx : Cursor.isNameChar x = true) : harmless x = true := by
  unfold Cursor.isNameChar at hx
  unfold harmless
  rw [Bool.or_eq_true] at hx ⊢
  rcases hx with hx | hx
  · exact .inl hx
  · rw [beq_iff_eq.mp hx]
    exact .inr (by decide)

/-- What letters are, by their codes. -/
theorem isNameStart_eq (x : Char) : Cursor.isNameStart x =
    (decide ('A'.val ≤ x.val ∧ x.val ≤ 'Z'.val) || (decide ('a'.val ≤ x.val) && decide (x.val ≤ 'z'.val)) || x == '_') :=
  rfl

theorem isDigit_of_isNameStart {x : Char} (hx : Cursor.isNameStart x = true) : x.isDigit = false := by
  have hdigit : x.isDigit = (decide ('0'.val ≤ x.val) && decide (x.val ≤ '9'.val)) := rfl
  have : '9'.val.toNat = 57 := rfl
  have : 'A'.val.toNat = 65 := rfl
  have : 'a'.val.toNat = 97 := rfl
  simp only [isNameStart_eq, Bool.or_eq_true, Bool.and_eq_true, decide_eq_true_eq, beq_iff_eq,
    UInt32.le_iff_toNat_le] at hx
  rw [hdigit, Bool.and_eq_false_iff, decide_eq_false_iff_not, decide_eq_false_iff_not, UInt32.le_iff_toNat_le,
    UInt32.le_iff_toNat_le]
  rcases hx with (hx | hx) | rfl
  · omega
  · omega
  · decide

theorem isNameChar_of_isName {cs : List Char} (h : Cursor.isName cs = true) :
    ∀ y ∈ cs, Cursor.isNameChar y = true := by
  cases cs with
  | nil => exact nofun
  | cons x cs =>
    rw [Cursor.isName, Bool.and_eq_true, List.all_eq_true] at h
    exact List.forall_mem_cons.mpr ⟨Parser.isNameChar_of_isNameStart h.1, h.2⟩

/-- Where the name of an assignment ends. -/
theorem span_name {name : List Char} (h : Cursor.isName name = true) (value : List Char) :
    (name ++ '=' :: value).takeWhile (· != '=') = name ∧
      (name ++ '=' :: value).dropWhile (· != '=') = '=' :: value := by
  have hall : ∀ y ∈ name, (y != '=') = true := by
    intro y hy
    rw [bne_iff_ne]
    rintro rfl
    exact absurd (isNameChar_of_isName h _ hy) (by decide)
  rw [List.takeWhile_append_of_pos hall, List.dropWhile_append_of_pos hall]
  simp

/-! ## The text of an assignment -/

/-- A name with the value that it is to get. -/
structure Binding where
  name : String
  value : String
  isName : Cursor.isName name.toList = true

namespace Binding

/-- How the assignment is written. -/
def text (b : Binding) : String := b.name ++ "=" ++ quote b.value

/-- The word that the assignment is read as. -/
def word (b : Binding) : Word :=
  if isHarmless b.value.toList then [.literal (b.name ++ "=" ++ b.value) false]
  else [.literal (b.name ++ "=") false, .literal b.value true]

/-- The assignment of the value as it is. -/
def assign (b : Binding) : Assign := ⟨b.name, quotedWord b.value⟩

theorem toList_text (b : Binding) : b.text.toList = b.name.toList ++ '=' :: (quote b.value).toList := by
  simp [text]

theorem text_opens (b : Binding) :
    ∃ x r, b.text.toList = x :: r ∧ opens x = true ∧ x.isDigit = false := by
  rw [toList_text]
  have hname := b.isName
  cases hn : b.name.toList with
  | nil => simp [hn, Cursor.isName] at hname
  | cons x r =>
    rw [hn, Cursor.isName, Bool.and_eq_true] at hname
    refine ⟨x, _, rfl, ?_, isDigit_of_isNameStart hname.1⟩
    unfold opens
    rw [harmless_of_isNameChar (Parser.isNameChar_of_isNameStart hname.1), Bool.or_true]

theorem assignment?_word (b : Binding) : Parser.assignment? b.word = some b.assign := by
  unfold word assign quotedWord
  cases hv : isHarmless b.value.toList with
  | true =>
    have hne : b.value.toList ≠ [] := (isHarmless_iff.mp hv).1
    obtain ⟨htake, hdrop⟩ := span_name b.isName b.value.toList
    simp_all [Parser.assignment?, b.isName]
  | false =>
    obtain ⟨htake, hdrop⟩ := span_name b.isName []
    simp [Parser.assignment?, htake, hdrop, b.isName]

end Binding

/-! ## Reading assignments -/

namespace Parser

theorem word_binding (b : Binding) {tail : List Char} (ht : Ends tail) {c : Cursor}
    (hc : c.rest = b.text.toList ++ tail) : Gives (seen (word false c)) b.word tail := by
  have hall : ∀ x ∈ b.name.toList ++ ['='], harmless x = true := by
    intro x hx
    rcases List.mem_append.mp hx with hx | hx
    · exact harmless_of_isNameChar (isNameChar_of_isName b.isName x hx)
    · rw [List.mem_singleton.mp hx]
      decide
  have hword : withText (b.name.toList ++ ['=']) (quotedWord b.value) = b.word := by
    unfold Binding.word withText quotedWord
    rw [if_neg (by simp)]
    cases hv : isHarmless b.value.toList <;>
      simp [Word.cons, String.ofList_append]
  rw [← hword]
  refine word_harmless hall (fun e he => word_quote b.value ht he) ?_
  rw [hc, Binding.toList_text]
  simp

/-- The next item of a command that has no word yet is an assignment that stands there. -/
theorem item_binding (b : Binding) {tail : List Char} (ht : Ends tail) {c : Cursor}
    (hc : c.skipBlanks.rest = b.text.toList ++ tail) :
    ∃ e, found (item? true c) = .ok (some (.assign b.assign, e), c.skipBlanks) ∧ e.rest = tail := by
  obtain ⟨x, r, htext, hx, hdigit⟩ := b.text_opens
  obtain ⟨f, hword, hrest⟩ := word_binding b ht hc
  have hxr : c.skipBlanks.rest = x :: (r ++ tail) := by rw [hc, htext]; rfl
  have hredirect : passed? (redirect? c.skipBlanks) = .ok none := by
    rw [passed?_redirect, redirectOperator?_none]
    · rfl
    · rw [hxr, List.dropWhile_cons_of_neg (by simp [hdigit])]
      rintro y ⟨⟩
      exact ⟨ne_of_opens hx (by decide), ne_of_opens hx (by decide), ne_of_opens hx (by decide)⟩
  refine ⟨f, ?_, hrest⟩
  rw [item_opens hxr hx hredirect hword, itemOf, if_pos rfl, b.assignment?_word]
  rfl

/-- The text of assignments and of what stands behind them, each after a blank. -/
def bindingText (bs : List Binding) (tail : List Char) : List Char :=
  bs.flatMap (fun b => ' ' :: b.text.toList) ++ tail

theorem ends_bindingText (bs : List Binding) {tail : List Char} (ht : Ends tail) :
    Ends (bindingText bs tail) := by
  cases bs with
  | nil => exact ht
  | cons b bs => exact .inr ⟨_, rfl⟩

/-- A command goes on behind assignments as it would without them. -/
theorem items_bindings (bs : List Binding) {tail : List Char} (ht : Ends tail) {c : Cursor}
    (hc : c.rest = bindingText bs tail) :
    ∃ e, e.rest = tail ∧ seen (items false c) =
      (seen (items false e)).map fun p => ((bs.map Binding.assign ++ p.1.1, p.1.2), p.2) := by
  induction bs generalizing c with
  | nil =>
    refine ⟨c, hc, ?_⟩
    cases seen (items false c) <;> rfl
  | cons b bs ih =>
    obtain ⟨x, r, htext, hx, -⟩ := b.text_opens
    have hcons : c.rest = ' ' :: x :: (r ++ bindingText bs tail) := by
      rw [hc, bindingText, List.flatMap_cons, htext]
      simp [bindingText]
    have hstart : c.skipBlanks.rest = b.text.toList ++ bindingText bs tail := by
      rw [Cursor.skipBlanks_blank hcons hx, htext]
      rfl
    obtain ⟨f, hitem, hrest⟩ := item_binding b (ends_bindingText bs ht) hstart
    obtain ⟨e, he, hmore⟩ := ih hrest
    refine ⟨e, he, ?_⟩
    rw [seen_items, Bool.not_false, hitem]
    simp only [bind, Except.bind, Bool.or_self, hmore]
    cases seen (items false e) <;> rfl

/-- Where something stands that starts like a quoted value, the command does not end. -/
theorem item_ne_none {leading : Bool} {c s : Cursor} {x : Char} {r : List Char}
    (hc : c.skipBlanks.rest = x :: r) (hx : opens x = true) :
    found (item? leading c) ≠ .ok (none, s) := by
  have hparen : (x == '(') = false := beq_false_of_ne (ne_of_opens hx (by decide))
  rw [found_item, hc]
  simp only [endsCommand_opens hx, hparen, Bool.false_eq_true, if_false]
  rcases passed? (redirect? c.skipBlanks) with _ | _ | p
  · exact nofun
  · simp only [bind, Except.bind]
    rcases passed (piece c.skipBlanks) with _ | p
    · exact nofun
    · simp only []
      rcases seen (word false p.2) with _ | q
      · exact nofun
      · simp only []
        rcases itemOf leading c.skipBlanks (p.1.foldr Word.cons q.1) with _ | i <;> exact nofun
  · exact nofun

/-- A command that starts with a word or an assignment is what its items are. -/
theorem simple_eq_items {c : Cursor} {x : Char} {r : List Char} (hc : c.skipBlanks.rest = x :: r)
    (hx : opens x = true) :
    passed (simple c) =
      (seen (items false c)).map fun p => (.simple p.1.1 p.1.2.1 p.1.2.2, p.2) := by
  rw [passed_simple, seen_items, Bool.not_false]
  cases hitem : found (item? true c) with
  | error e => rfl
  | ok p =>
    obtain ⟨_ | ⟨i, e⟩, s⟩ := p
    · exact absurd hitem (item_ne_none hc hx)
    · simp only [bind, Except.bind, Bool.false_or]
      generalize seen (items _ e) = rest
      cases rest <;> rfl

end Parser

/-! ## Assignments and words as a script -/

theorem Cursor.skipBlanks_step {c : Cursor} {r : List Char} (h : c.rest = ' ' :: r) :
    c.skipBlanks = c.step.skipBlanks := by
  rw [skipBlanks, skipBlanks, h, rest_step h, gap, if_neg (by decide), if_pos (by decide),
    Nat.add_comm, advance]
  simp

namespace Parser

theorem items_congr {named : Bool} {c d : Cursor} (h : c.skipBlanks = d.skipBlanks) :
    seen (items named c) = seen (items named d) := by
  rw [seen_items, seen_items, found_item, found_item, h]

theorem items_nil {named : Bool} {c : Cursor} (h : c.rest = []) :
    Gives (seen (items named c)) ([], [], []) [] := by
  refine ⟨c, ?_, h⟩
  rw [seen_items, found_item, Cursor.skipBlanks_nil h, h]
  rfl

theorem skipBlanks_argumentText {v : String} {vs : List String} {c : Cursor}
    (hc : c.rest = argumentText (v :: vs)) :
    c.skipBlanks.rest = (quote v).toList ++ argumentText vs := by
  obtain ⟨x, r, hq, hx⟩ := quote_opens v
  have hcons : c.rest = ' ' :: x :: (r ++ argumentText vs) := by
    rw [hc, argumentText, List.flatMap_cons, hq]; rfl
  rw [Cursor.skipBlanks_blank hcons hx, hq]; rfl

/-- The words of a command, of which the first one is no assignment and not reserved. -/
theorem items_words (vs : List String) (hhead : ∀ v ∈ vs.head?, ∀ s, itemOf true s (quotedWord v) =
    .ok (.word (quotedWord v))) {c : Cursor} (hc : c.rest = argumentText vs) :
    Gives (seen (items false c)) ([], vs.map quotedWord, []) [] := by
  cases vs with
  | nil => exact items_nil hc
  | cons v vs =>
    obtain ⟨e, hitem, hrest⟩ := item_quote true v (ends_argumentText vs) (skipBlanks_argumentText hc)
    obtain ⟨f, hmore, hf⟩ := items_quotes vs hrest
    refine ⟨f, ?_, hf⟩
    rw [seen_items, Bool.not_false, hitem, hhead v rfl]
    simp only [bind, Except.bind, Except.map, Bool.false_or, hmore]
    rfl

theorem itemOf_ne_redirect (leading : Bool) (s : Cursor) (w : Word) (r : Redirect) :
    itemOf leading s w ≠ .ok (.redirect r) := by
  intro h
  unfold itemOf at h
  split at h
  · split at h
    · cases h
    · split at h
      · split at h <;> cases h
      · cases h
  · cases h

/-- Where the first word is read as something else, a command that is read has an assignment. -/
theorem items_misread {v : String} (hhead : ∀ s w, itemOf true s (quotedWord v) ≠ .ok (.word w))
    (vs : List String) {c f : Cursor} (hc : c.rest = argumentText (v :: vs)) {parts : Parts}
    (h : seen (items false c) = .ok (parts, f)) : parts.1 ≠ [] := by
  obtain ⟨e, hitem, -⟩ := item_quote true v (ends_argumentText vs) (skipBlanks_argumentText hc)
  rw [seen_items, Bool.not_false, hitem] at h
  cases hi : itemOf true c.skipBlanks (quotedWord v) with
  | error fault =>
    rw [hi] at h
    cases h
  | ok i =>
    cases i with
    | word w => exact absurd hi (hhead _ _)
    | redirect r => exact absurd hi (itemOf_ne_redirect _ _ _ _)
    | assign a =>
      rw [hi] at h
      simp only [bind, Except.bind, Except.map] at h
      rcases hmore : seen (items (false || false) e) with _ | p <;> rw [hmore] at h <;> cases h
      exact List.cons_ne_nil _ _

/-- The characters of a line of assignments and words start like a quoted value. -/
theorem opens_bindingText {bs : List Binding} {vs : List String} {cs : List Char}
    (h : ' ' :: cs = bindingText bs (argumentText vs)) : ∃ x r, cs = x :: r ∧ opens x = true := by
  cases bs with
  | cons b bs =>
    obtain ⟨x, r, htext, hx, -⟩ := b.text_opens
    rw [bindingText, List.flatMap_cons, htext] at h
    exact ⟨x, _, (List.cons.inj h).2, hx⟩
  | nil =>
    cases vs with
    | nil => cases h
    | cons v vs =>
      obtain ⟨x, r, hq, hx⟩ := quote_opens v
      rw [bindingText, argumentText, List.flatMap_cons, hq] at h
      exact ⟨x, _, (List.cons.inj h).2, hx⟩

/-- A line of assignments and words is the command of its words with the assignments before it. -/
theorem simple_bindings {bs : List Binding} {vs : List String} {source : String}
    (hs : ' ' :: source.toList = bindingText bs (argumentText vs)) :
    ∃ e, e.rest = argumentText vs ∧ passed (simple (.ofString source)) =
      (seen (items false e)).map fun p =>
        (.simple (bs.map Binding.assign ++ p.1.1) p.1.2.1 p.1.2.2, p.2) := by
  obtain ⟨x, r, hsource, hx⟩ := opens_bindingText hs
  have hstart : (Cursor.ofString source).skipBlanks.rest = x :: r := by
    rw [Cursor.skipBlanks_opens (c := .ofString source) hsource hx]
    exact hsource
  -- with a blank before it the first word is one like the others
  let c : Cursor := ⟨' ' :: source.toList, 1, 0⟩
  have hblank : c.skipBlanks = (Cursor.ofString source).skipBlanks := Cursor.skipBlanks_step rfl
  obtain ⟨e, he, hitems⟩ := items_bindings bs (ends_argumentText vs) (c := c) hs
  refine ⟨e, he, ?_⟩
  rw [simple_eq_items hstart hx, ← items_congr hblank, hitems]
  cases seen (items false e) <;> rfl

end Parser

/-- A line of assignments and words, the first of which is no assignment and not reserved, is a
script of one simple command. -/
theorem ofString_bindings {bs : List Binding} {vs : List String} {source : String}
    (hs : ' ' :: source.toList = Parser.bindingText bs (argumentText vs))
    (hhead : ∀ v ∈ vs.head?, ∀ s, Parser.itemOf true s (quotedWord v) = .ok (.word (quotedWord v))) :
    ∃ text line, Script.ofString source =
      .ok [⟨⟨false, [.simple (bs.map Binding.assign) (vs.map quotedWord) []]⟩, [], text, line⟩] := by
  obtain ⟨x, r, hsource, hx⟩ := Parser.opens_bindingText hs
  obtain ⟨e, he, hsimple⟩ := Parser.simple_bindings hs
  obtain ⟨f, hwords, hf⟩ := Parser.items_words vs hhead he
  refine ofString_simple hsource hx ⟨f, ?_, hf⟩
  rw [hsimple, hwords]
  simp [Except.map]

/-- The one simple command that a script is stands where the text starts. -/
theorem simple_of_ofString {source : String} {x : Char} {r : List Char} (hs : source.toList = x :: r)
    (hx : opens x = true) {negated : Bool} {command : Command} {rest : List Link} {text : String}
    {line : Nat} {more : Script}
    (h : Script.ofString source = .ok (⟨⟨negated, [command]⟩, rest, text, line⟩ :: more)) :
    ∃ e, Parser.passed (Parser.simple (.ofString source)) = .ok (command, e) := by
  have hcons : (Cursor.ofString source).rest = x :: r := hs
  obtain ⟨f, hread⟩ : ∃ f, Parser.seen (Parser.statements .endOfText (.ofString source)) =
      .ok (⟨⟨negated, [command]⟩, rest, text, line⟩ :: more, f) := by
    rw [Script.ofString] at h
    cases hp : Parser.statements .endOfText (.ofString source) with
    | error e => rw [hp] at h; cases h
    | ok p =>
      rw [hp] at h
      exact ⟨p.next, congrArg (Except.ok ∘ (·, p.next)) (Except.ok.inj h)⟩
  obtain ⟨-, hnil, -⟩ | ⟨-, -, first, rest', e, more', handOr, -, -, heq⟩ :=
    Parser.statements_cases hread
  · cases hnil
  · cases heq
    rw [Cursor.skipSeparators_opens hcons hx, Parser.passed_andOr_opens hcons hx] at handOr
    cases hp : Parser.passed (Parser.simple (.ofString source)) with
    | error e => rw [hp] at handOr; cases handOr
    | ok p =>
      rw [hp] at handOr
      simp only [bind, Except.bind] at handOr
      rcases hpiped : Parser.seen (Parser.piped p.2) with _ | ⟨more, f⟩ <;> rw [hpiped] at handOr
      · cases handOr
      · simp only [] at handOr
        rcases hlinks : Parser.seen (Parser.links f) with _ | l <;> rw [hlinks] at handOr <;>
          cases handOr
        exact ⟨p.2, rfl⟩

/-- A line of assignments and words of which the first one is misread is not the command of its
words: if it is a command at all, it has more assignments. -/
theorem length_lt_of_misread {bs : List Binding} {v : String} {vs : List String} {source : String}
    (hs : ' ' :: source.toList = Parser.bindingText bs (argumentText (v :: vs)))
    (hhead : ∀ s w, Parser.itemOf true s (quotedWord v) ≠ .ok (.word w)) {assigns : List Assign}
    {words : List Word} {redirects : List Redirect} {text : String} {line : Nat}
    (h : Script.ofString source =
      .ok [⟨⟨false, [.simple assigns words redirects]⟩, [], text, line⟩]) :
    bs.length < assigns.length := by
  obtain ⟨x, r, hsource, hx⟩ := Parser.opens_bindingText hs
  obtain ⟨f, hcommand⟩ := simple_of_ofString hsource hx h
  obtain ⟨e, he, hsimple⟩ := Parser.simple_bindings hs
  rw [hsimple] at hcommand
  cases hread : Parser.seen (Parser.items false e) with
  | error fault => rw [hread] at hcommand; cases hcommand
  | ok p =>
    have hne := Parser.items_misread hhead vs he hread
    rw [hread] at hcommand
    simp only [Except.map, Except.ok.injEq, Prod.mk.injEq, Command.simple.injEq] at hcommand
    rw [← hcommand.1.1, List.length_append, List.length_map]
    have := List.length_pos_iff.mpr hne
    omega

/-! ## Values -/

/-- Assignments of quoted values give the values, in every state. -/
theorem values_bindings (h : Handlers) (bs : List Binding) (w : World) :
    Run.values h (bs.map Binding.assign) w = (.ok (bs.map fun b => (b.name, b.value)), w) := by
  induction bs with
  | nil => rw [List.map_nil, Run.values]; rfl
  | cons b bs ih =>
    have htext : Run.text h (quotedWord b.value) w = (.ok b.value, w) := by
      rw [quotedWord, Run.text, Run.text, Stateful.bind_ok (Stateful.pure_apply _ w)]
      simp [Stateful.pure_apply]
    rw [List.map_cons, List.map_cons, Binding.assign, Run.values, Stateful.bind_ok htext,
      Stateful.bind_ok ih]
    rfl

/-- As many values are had as there are assignments. -/
theorem length_values (h : Handlers) {assigns : List Assign} {w w' : World}
    {rows : List (String × String)} (hv : Run.values h assigns w = (.ok rows, w')) :
    rows.length = assigns.length := by
  induction assigns generalizing w rows with
  | nil => rw [Run.values] at hv; cases hv; rfl
  | cons a assigns ih =>
    obtain ⟨name, value⟩ := a
    rw [Run.values, Stateful.bind_apply] at hv
    rcases htext : Run.text h value w with ⟨_ | v, s⟩ <;> rw [htext] at hv
    · cases hv
    · simp only [] at hv
      rw [Stateful.bind_apply] at hv
      rcases hmore : Run.values h assigns s with ⟨_ | more, t⟩ <;> rw [hmore] at hv
      · cases hv
      · cases hv
        rw [List.length_cons, List.length_cons, ih hmore]

end Taskwork.Shell
