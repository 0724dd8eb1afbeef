/-
Statements that are cut out of their text. What a reader has read in a text it reads again when all
behind it is cut off, be it at once or after some blanks: the parser looks ahead only at characters
that could go on with what it reads, and neither a blank nor what a statement ends at is one of them.
-/
import Taskwork.Proofs.Shell.Composition
import Taskwork.Proofs.Shell.Spelling

namespace Taskwork.Shell

namespace Cursor

/-! ## Places before a cut -/

/-- The characters that a text can be cut off at: blanks, and what a statement ends at. -/
def cuts (x : Char) : Bool := isBlank x || x == '\n' || x == ';' || x == ')'

theorem ne_of_cuts {x y : Char} (hx : cuts x = true) (hy : cuts y = false) : x ≠ y := by
  rintro rfl
  exact Bool.noConfusion (hx.symm.trans hy)

/-- What holds of none of them is decided one by one. -/
theorem not_of_cuts {p : Char → Bool} {x : Char} (hx : cuts x = true)
    (hp : [' ', '\t', '\r', '\n', ';', ')'].any p = false) : p x = false := by
  rw [List.any_eq_false] at hp
  refine Bool.eq_false_iff.mpr (hp x ?_)
  simp only [cuts, isBlank, Bool.or_eq_true, beq_iff_eq] at hx
  simpa [or_assoc] using hx

theorem isMeta_of_cuts {x : Char} (hx : cuts x = true) : isMeta x = true := by
  simp only [cuts, Bool.or_eq_true] at hx
  simp only [isMeta, Bool.or_eq_true]
  obtain ((hx | hx) | hx) | hx := hx <;> simp [hx]

theorem cuts_of_isBlank {x : Char} (hx : isBlank x = true) : cuts x = true := by simp [cuts, hx]

/-- The place `d` is the place `c` in a longer text, further down. Behind the text at `c` there come some
blanks, which the reader at the end of it has passed or not, and then what a statement ends at. -/
structure Cut (n : Nat) (blanks stop : List Char) (c d : Cursor) : Prop where
  rest : d.rest = c.rest ++ (blanks ++ stop) ∨ c.rest = [] ∧ d.rest = stop
  line : d.line = c.line + n
  blank : ∀ x ∈ blanks, isBlank x = true
  stops : ∀ x ∈ stop.head?, x = '\n' ∨ x = ';' ∨ x = ')'
  unescaped : blanks = [] ∨ c.rest.getLast? ≠ some '\\'

variable {n : Nat} {blanks stop : List Char} {c d e f : Cursor}

theorem cuts_of_mem_head? (hblank : ∀ x ∈ blanks, isBlank x = true)
    (hstops : ∀ x ∈ stop.head?, x = '\n' ∨ x = ';' ∨ x = ')') : ∀ x ∈ (blanks ++ stop).head?, cuts x = true := by
  intro x hx
  cases blanks with
  | nil => obtain rfl | rfl | rfl := hstops x hx <;> rfl
  | cons y blanks =>
    cases hx
    exact cuts_of_isBlank (hblank _ List.mem_cons_self)

theorem length_le_gap (between : Char → Bool) (hblank : ∀ x ∈ blanks, isBlank x = true) (comment : Bool)
    (r : List Char) : blanks.length ≤ gap between comment (blanks ++ r) := by
  induction blanks with
  | nil => exact Nat.zero_le _
  | cons x blanks ih =>
    rw [List.forall_mem_cons] at hblank
    have hcut := cuts_of_isBlank hblank.1
    have hrest := ih hblank.2
    rw [List.cons_append, List.length_cons]
    cases comment with
    | true =>
      have hline : x ≠ '\n' := by
        rintro rfl
        exact absurd hblank.1 (by decide)
      rw [gap, if_neg hline]
      omega
    | false =>
      rw [gap_cons fun _ hx => absurd hx (ne_of_cuts hcut (by decide)), if_neg (ne_of_cuts hcut (by decide)),
        if_pos (by simp [hblank.1])]
      omega

/-- A gap that does not reach the end of a statement is the same in the text that is cut off before, or
it fills what is left of that text. -/
theorem gap_cut {between : Char → Bool} (hbetween : between '\\' = false) (hblank : ∀ x ∈ blanks, isBlank x = true)
    {comment : Bool} {r : List Char}
    (h : gap between comment (r ++ (blanks ++ stop)) ≤ r.length + blanks.length) :
    gap between comment r < r.length ∧ gap between comment (r ++ (blanks ++ stop)) = gap between comment r ∨
      gap between comment r = r.length ∧
        gap between comment (r ++ (blanks ++ stop)) = r.length + blanks.length := by
  induction comment, r using gap.induct between with
  | case1 comment =>
    have hle := length_le_gap between hblank comment stop
    rw [List.nil_append, List.length_nil, Nat.zero_add] at h ⊢
    exact .inr ⟨gap.eq_1 between comment, Nat.le_antisymm h hle⟩
  | case2 r hb ih =>
    rw [List.cons_append, gap, if_pos rfl, if_pos hb, List.length_cons] at h
    rw [List.cons_append, gap, gap, if_pos rfl, if_pos hb, if_pos rfl, if_pos hb, List.length_cons]
    have := ih (by omega)
    omega
  | case3 r hb =>
    rw [List.cons_append, gap, gap, if_pos rfl, if_neg hb, if_pos rfl, if_neg hb]
    exact .inl ⟨Nat.succ_pos _, rfl⟩
  | case4 x r hx ih =>
    rw [List.cons_append, gap, if_neg hx, List.length_cons] at h
    rw [List.cons_append, gap, gap, if_neg hx, if_neg hx, List.length_cons]
    have := ih (by omega)
    omega
  | case5 r ih =>
    rw [List.cons_append, List.cons_append, gap, List.length_cons, List.length_cons] at h
    rw [List.cons_append, List.cons_append, gap, gap, List.length_cons, List.length_cons]
    have := ih (by omega)
    omega
  | case6 r hx ih =>
    have hlong : gap between false ('#' :: r ++ (blanks ++ stop)) = 1 + gap between true (r ++ (blanks ++ stop)) := by
      rw [List.cons_append, gap_cons (by simp), if_pos rfl]
    rw [hlong, List.length_cons] at h
    rw [hlong, gap_cons hx, if_pos rfl, List.length_cons]
    have := ih (by omega)
    omega
  | case7 x r hx hsharp hskip ih =>
    have hx' : x ≠ '\\' := by
      rintro rfl
      rw [hbetween] at hskip
      exact absurd hskip (by decide)
    have hlong : gap between false (x :: r ++ (blanks ++ stop)) = 1 + gap between false (r ++ (blanks ++ stop)) := by
      rw [List.cons_append, gap_cons fun _ h => absurd h hx', if_neg hsharp, if_pos hskip]
    rw [hlong, List.length_cons] at h
    rw [hlong, gap_cons hx, if_neg hsharp, if_pos hskip, List.length_cons]
    have := ih (by omega)
    omega
  | case8 x r hx hsharp hskip =>
    rw [gap_cons hx, if_neg hsharp, if_neg hskip, List.cons_append, gap_cons, if_neg hsharp, if_neg hskip]
    · exact .inl ⟨Nat.succ_pos _, rfl⟩
    rintro r' rfl hr'
    -- a backslash before the cut would join its line to one that is cut off
    cases r with
    | cons y r =>
      obtain ⟨rfl, -⟩ := List.cons.inj hr'
      exact hx r rfl rfl
    | nil =>
      rw [List.nil_append] at hr'
      rw [List.cons_append, List.nil_append, hr', gap, List.length_singleton] at h
      cases blanks with
      | nil =>
        rw [List.length_nil] at h
        omega
      | cons y blanks =>
        obtain ⟨rfl, -⟩ := List.cons.inj hr'
        exact absurd (hblank _ List.mem_cons_self) (by decide)

namespace Cut

theorem tail (h : Cut n blanks stop c d) : ∃ t, d.rest = c.rest ++ t ∧ ∀ x ∈ t.head?, cuts x = true := by
  rcases h.rest with hrest | ⟨hnil, hrest⟩
  · exact ⟨_, hrest, cuts_of_mem_head? h.blank h.stops⟩
  · have hnone : ∀ x ∈ [], isBlank x = true := by simp
    exact ⟨[] ++ stop, by rw [hnil, hrest]; rfl, cuts_of_mem_head? hnone h.stops⟩

/-- At the end of the shorter text there are only blanks before the end of the statement. -/
theorem rest_nil (h : Cut n blanks stop c d) (hc : c.rest = []) :
    ∃ more, d.rest = more ++ stop ∧ ∀ x ∈ more, isBlank x = true := by
  rcases h.rest with hrest | ⟨-, hrest⟩
  · exact ⟨blanks, by rw [hrest, hc]; rfl, h.blank⟩
  · exact ⟨[], hrest, by simp⟩

theorem rest_of_ne_nil (h : Cut n blanks stop c d) (hc : c.rest ≠ []) : d.rest = c.rest ++ (blanks ++ stop) :=
  h.rest.resolve_right fun hnil => hc hnil.1

theorem rest_cons (h : Cut n blanks stop c d) {x : Char} {r : List Char} (hc : c.rest = x :: r) :
    d.rest = x :: (r ++ (blanks ++ stop)) := by
  rw [h.rest_of_ne_nil (by simp [hc]), hc]
  rfl

/-- Lines are counted by the newlines passed, and no newline is among the blanks. -/
theorem onward (h : Cut n blanks stop c d) (he : c.Within e) (hf : d.Within f)
    (hrest : f.rest = e.rest ++ (blanks ++ stop) ∨ e.rest = [] ∧ f.rest = stop) : Cut n blanks stop e f where
  rest := hrest
  line := by
    have hblanks : blanks.count '\n' = 0 := by
      rw [List.count_eq_zero]
      exact fun hline => absurd (h.blank _ hline) (by decide)
    have hc := he.line_eq
    have hd := hf.line_eq
    have hline := h.line
    rcases h.rest with hrest' | ⟨hnil', hrest'⟩ <;> rcases hrest with hrest | ⟨hnil, hrest⟩ <;>
      simp only [*, List.count_append, List.count_nil] at hc hd <;> omega
  blank := h.blank
  stops := h.stops
  unescaped := by
    obtain ⟨k, rfl⟩ := he
    refine h.unescaped.imp_right fun hlast => ?_
    rw [rest_advance, List.getLast?_drop]
    split
    · exact nofun
    · exact hlast

theorem advance (h : Cut n blanks stop c d) {k : Nat} (hk : k ≤ c.size) :
    Cut n blanks stop (c.advance k) (d.advance k) := by
  refine h.onward ⟨k, rfl⟩ ⟨k, rfl⟩ ?_
  rw [rest_advance, rest_advance]
  rcases h.rest with hrest | ⟨hnil, hrest⟩
  · rw [hrest, List.drop_append_of_le_length hk]
    exact .inl rfl
  · obtain rfl : k = 0 := by
      rw [size, hnil] at hk
      exact Nat.le_zero.mp hk
    exact .inr ⟨hnil, hrest⟩

theorem step (h : Cut n blanks stop c d) (hc : c.rest ≠ []) : Cut n blanks stop c.step d.step :=
  h.advance (k := 1) (List.length_pos_iff.mpr hc)

/-! ## Gaps -/

theorem skip (h : Cut n blanks stop c d) {between : Char → Bool} (hbetween : between '\\' = false)
    (hd : stop.length ≤ (d.advance (gap between false d.rest)).size) :
    Cut n blanks stop (c.advance (gap between false c.rest)) (d.advance (gap between false d.rest)) ∧
      ((c.advance (gap between false c.rest)).rest = [] → (d.advance (gap between false d.rest)).rest = stop) := by
  have hgap : (d.rest.drop (gap between false d.rest) =
      c.rest.drop (gap between false c.rest) ++ (blanks ++ stop) ∧ c.rest.drop (gap between false c.rest) ≠ []) ∨
      c.rest.drop (gap between false c.rest) = [] ∧ d.rest.drop (gap between false d.rest) = stop := by
    have hle := gap_le between false d.rest
    rw [size, rest_advance, List.length_drop] at hd
    rcases h.rest with hrest | ⟨hnil, hrest⟩
    · rw [hrest, List.length_append, List.length_append] at hd hle
      rw [hrest]
      have hshort : gap between false (c.rest ++ (blanks ++ stop)) ≤ c.rest.length + blanks.length := by omega
      obtain ⟨hlt, heq⟩ | ⟨hall, heq⟩ := gap_cut hbetween h.blank hshort
      · refine .inl ⟨?_, fun hdrop => ?_⟩
        · rw [heq, List.drop_append_of_le_length hlt.le]
        · rw [List.drop_eq_nil_iff] at hdrop
          omega
      · rw [heq, hall, List.drop_length, ← List.length_append, ← List.append_assoc, List.drop_left]
        exact .inr ⟨rfl, rfl⟩
    · rw [hrest] at hd hle ⊢
      rw [hnil, List.drop_nil, show gap between false stop = 0 by omega]
      exact .inr ⟨rfl, rfl⟩
  rw [← rest_advance, ← rest_advance] at hgap
  refine ⟨h.onward ⟨_, rfl⟩ ⟨_, rfl⟩ (hgap.imp_left And.left), fun hnil => ?_⟩
  exact (hgap.resolve_left fun hmore => hmore.2 hnil).2

theorem skipBlanks (h : Cut n blanks stop c d) (hd : stop.length ≤ d.skipBlanks.size) :
    Cut n blanks stop c.skipBlanks d.skipBlanks := (h.skip rfl hd).1

theorem rest_skipBlanks (h : Cut n blanks stop c d) (hd : stop.length ≤ d.skipBlanks.size)
    (hc : c.skipBlanks.rest = []) : d.skipBlanks.rest = stop := (h.skip rfl hd).2 hc

theorem skipBlanks_ne_nil (h : Cut n blanks stop c d) (hd : stop.length < d.skipBlanks.size) :
    c.skipBlanks.rest ≠ [] := by
  intro hc
  rw [size, h.rest_skipBlanks hd.le hc] at hd
  exact absurd hd (Nat.lt_irrefl _)

theorem skipLinebreaks (h : Cut n blanks stop c d) (hd : stop.length ≤ d.skipLinebreaks.size) :
    Cut n blanks stop c.skipLinebreaks d.skipLinebreaks := (h.skip rfl hd).1

theorem skipSeparators (h : Cut n blanks stop c d) (hd : stop.length ≤ d.skipSeparators.size) :
    Cut n blanks stop c.skipSeparators d.skipSeparators := (h.skip rfl hd).1

theorem skipSeparators_ne_nil (h : Cut n blanks stop c d) (hd : stop.length < d.skipSeparators.size) :
    c.skipSeparators.rest ≠ [] := by
  intro hc
  have hsize := congrArg List.length ((h.skip rfl hd.le).2 hc)
  exact absurd (hsize ▸ hd) (Nat.lt_irrefl _)

/-! ## Looking ahead -/

theorem head? (h : Cut n blanks stop c d) {x : Char} (hx : cuts x = false) :
    (d.rest.head? == some x) = (c.rest.head? == some x) := by
  obtain ⟨t, hrest, ht⟩ := h.tail
  rw [hrest]
  cases c.rest with
  | cons y r => rfl
  | nil =>
    cases t with
    | nil => rfl
    | cons y t => simpa using ne_of_cuts (ht y rfl) hx

theorem isPrefixOf (h : Cut n blanks stop c d) {cs : List Char} (hcs : cs.any cuts = false) :
    cs.isPrefixOf d.rest = cs.isPrefixOf c.rest := by
  obtain ⟨t, hrest, ht⟩ := h.tail
  rw [hrest]
  generalize c.rest = r
  induction cs generalizing r with
  | nil => rfl
  | cons x cs ih =>
    rw [List.any_cons, Bool.or_eq_false_iff] at hcs
    cases r with
    | cons y r => rw [List.cons_append, List.isPrefixOf, List.isPrefixOf, ih hcs.2]
    | nil =>
      cases t with
      | nil => rfl
      | cons y t =>
        have hne : (x == y) = false := beq_false_of_ne (ne_of_cuts (ht y rfl) hcs.1).symm
        exact (congrArg (· && cs.isPrefixOf t) hne).trans (Bool.false_and _)

theorem atLone (h : Cut n blanks stop c d) {x : Char} (hx : cuts x = false) : d.atLone x = c.atLone x := by
  obtain ⟨t, hrest, ht⟩ := h.tail
  unfold Cursor.atLone
  rw [hrest]
  rcases c.rest with _ | ⟨y, _ | ⟨z, r⟩⟩
  · rcases t with _ | ⟨y, _ | ⟨z, t⟩⟩
    · rfl
    · exact beq_false_of_ne (ne_of_cuts (ht y rfl) hx)
    · simp [ne_of_cuts (ht y rfl) hx]
  · cases t with
    | nil => rfl
    | cons z t => simp [isMeta_of_cuts (ht z rfl)]
  · rfl

theorem takeWhile (h : Cut n blanks stop c d) {p : Char → Bool} (hp : ∀ x, cuts x = true → p x = false) :
    d.rest.takeWhile p = c.rest.takeWhile p := by
  obtain ⟨t, hrest, ht⟩ := h.tail
  rw [hrest]
  generalize c.rest = r
  induction r with
  | cons x r ih => rw [List.cons_append, List.takeWhile_cons, List.takeWhile_cons, ih]
  | nil =>
    cases t with
    | nil => rfl
    | cons x t => rw [List.nil_append, List.takeWhile_cons, hp x (ht x rfl)]; rfl

theorem skipWhile (h : Cut n blanks stop c d) {p : Char → Bool} (hp : ∀ x, cuts x = true → p x = false) :
    Cut n blanks stop (c.skipWhile p) (d.skipWhile p) := by
  unfold Cursor.skipWhile
  rw [h.takeWhile hp]
  exact h.advance (List.takeWhile_sublist _).length_le

/-- What was read of the longer text is what is read of the shorter one, if not all of that was read. -/
theorem upTo (h : Cut n blanks stop c d) (h' : Cut n blanks stop e f) (hc : c.rest ≠ []) (he : e.rest ≠ []) :
    d.upTo f = c.upTo e := by
  have hread : (c.rest ++ (blanks ++ stop)).length - (e.rest ++ (blanks ++ stop)).length =
      c.rest.length - e.rest.length := by
    simp only [List.length_append]
    omega
  unfold Cursor.upTo
  rw [h.rest_of_ne_nil hc, h'.rest_of_ne_nil he, hread, List.take_append_of_le_length (Nat.sub_le ..)]

end Cut

end Cursor

namespace Parser

open Cursor (Cut cuts)

variable {n : Nat} {blanks stop : List Char} {c d d' : Cursor}

/-! ## Operators -/

theorem connector?_cut (h : Cut n blanks stop c d) : connector? d = connector? c := by
  rw [connector?_eq, connector?_eq, h.isPrefixOf (by decide), h.isPrefixOf (by decide)]

theorem atPipe_cut (h : Cut n blanks stop c d) : atPipe d = atPipe c := by
  rw [atPipe_eq, atPipe_eq, h.isPrefixOf (by decide), h.isPrefixOf (by decide)]

theorem holdsAt_cut {closer : Closer} (hcloser : closer ≠ .endOfText) (h : Cut n blanks stop c d)
    (hc : c.rest ≠ []) : closer.holdsAt d = closer.holdsAt c := by
  obtain ⟨x, r, hrest⟩ := List.exists_cons_of_ne_nil hc
  cases closer with
  | endOfText => exact absurd rfl hcloser
  | paren =>
    unfold Closer.holdsAt
    rw [h.rest_cons hrest, hrest]
    rfl
  | brace => exact h.atLone (by decide)

theorem endsStatement_cut {closer : Closer} (h : Cut n blanks stop c d) (hc : c.rest ≠ []) :
    endsStatement closer d.rest = endsStatement closer c.rest := by
  obtain ⟨x, r, hrest⟩ := List.exists_cons_of_ne_nil hc
  rw [h.rest_cons hrest, hrest]
  rfl

theorem afterBang_cut (h : Cut n blanks stop c d) : Cut n blanks stop (afterBang c) (afterBang d) := by
  unfold afterBang
  rw [h.atLone (by decide)]
  split
  · rename_i hbang
    exact h.step fun hc => by simpa [Cursor.size, hc] using one_le_of_atLone hbang
  · exact h

theorem endsCommand_cut {x : Char} {r t : List Char} (ht : ∀ y ∈ t.head?, cuts y = true) :
    endsCommand x (r ++ t) = endsCommand x r := by
  unfold endsCommand
  cases r with
  | cons y r => rfl
  | nil =>
    cases t with
    | nil => rfl
    | cons y t =>
      have hne : (some y != some '>') = true :=
        bne_iff_ne.mpr fun heq => Cursor.ne_of_cuts (ht y rfl) (by decide) (Option.some.inj heq)
      show (_ || x == '&' && (some y != some '>')) = _
      rw [hne]
      rfl

/-- What a reader that may find nothing finds before the cut, if it finds that in the longer text. -/
def Finds {α : Type} (n : Nat) (blanks stop : List Char) (moved : α → α) (x : Except SyntaxError (Option (α × Cursor))) :
    Option (α × Cursor) → Prop
  | none => x = .ok none
  | some (b, d) => ∃ a c, x = .ok (some (a, c)) ∧ b = moved a ∧ Cut n blanks stop c d

theorem finds_operatorAfter {digits : List Char} (h : Cut n blanks stop c d)
    {o : Option ((Nat × RedirectKind) × Cursor)} (hread : operatorAfter digits d d.rest = .ok o) :
    Finds n blanks stop id (operatorAfter digits c c.rest) o := by
  have hsome {k : Nat} {cs : List Char} (hcs : cs.isPrefixOf c.rest = true) (hk : k ≤ cs.length)
      (operator : Nat × RedirectKind) :
      Finds n blanks stop id (.ok (some (operator, c.advance k))) (some (operator, d.advance k)) :=
    ⟨operator, _, rfl, rfl, h.advance (hk.trans (le_of_isPrefixOf hcs))⟩
  unfold operatorAfter at hread ⊢
  rw [h.isPrefixOf (by decide), h.isPrefixOf (by decide), h.isPrefixOf (by decide), h.isPrefixOf (by decide),
    h.isPrefixOf (by decide), h.isPrefixOf (by decide), h.isPrefixOf (by decide), h.isPrefixOf (by decide),
    h.isPrefixOf (by decide)] at hread
  generalize (if digits.isEmpty then some 1 else descriptor? digits) = output at hread ⊢
  generalize (if digits.isEmpty then some 0 else descriptor? digits) = input at hread ⊢
  by_cases hboth : ['&', '>'].isPrefixOf c.rest
  · rw [if_pos hboth] at hread ⊢
    split_ifs at hread ⊢
    · cases hread
      rfl
    · cases hread
    · cases hread
      exact hsome hboth (Nat.le_refl 2) _
  rw [if_neg hboth] at hread ⊢
  by_cases hwrite : ['>'].isPrefixOf c.rest
  · rw [if_pos hwrite] at hread ⊢
    cases output with
    | none => cases hread
    | some fd =>
      dsimp only at hread ⊢
      split_ifs at hread ⊢ with happend hduplicate hclobber
      · cases hread
        exact hsome happend (Nat.le_refl 2) _
      · cases hread
        exact hsome hduplicate (Nat.le_refl 2) _
      · cases hread
        exact hsome hclobber (Nat.le_refl 2) _
      · cases hread
        exact hsome hwrite (Nat.le_refl 1) _
  rw [if_neg hwrite] at hread ⊢
  by_cases hinput : ['<'].isPrefixOf c.rest
  · rw [if_pos hinput] at hread ⊢
    cases input with
    | none => cases hread
    | some fd =>
      dsimp only at hread ⊢
      split_ifs at hread ⊢
      · cases hread
      · cases hread
      · cases hread
        exact hsome hinput (Nat.le_refl 1) _
  rw [if_neg hinput] at hread ⊢
  cases hread
  rfl

theorem finds_redirectOperator (h : Cut n blanks stop c d) {o : Option ((Nat × RedirectKind) × Cursor)}
    (hread : passed? (redirectOperator? d) = .ok o) :
    Finds n blanks stop id (passed? (redirectOperator? c)) o := by
  have hdigit (x : Char) (hx : cuts x = true) : x.isDigit = false := Cursor.not_of_cuts hx (by decide)
  rw [passed?_redirectOperator, h.takeWhile hdigit] at hread
  rw [passed?_redirectOperator]
  exact finds_operatorAfter (h.skipWhile hdigit) hread

/-! ## Names and quotations -/

theorem parameterName_cut (h : Cut n blanks stop c d) :
    (parameterName d).value = (parameterName c).value ∧
      Cut n blanks stop (parameterName c).next (parameterName d).next := by
  have hany : d.rest.head?.any Cursor.isNameStart = c.rest.head?.any Cursor.isNameStart := by
    obtain ⟨t, hrest, ht⟩ := h.tail
    rw [hrest]
    cases c.rest with
    | cons x r => rfl
    | nil =>
      cases t with
      | nil => rfl
      | cons x t =>
        have hstart : Cursor.isNameStart x = false := Cursor.not_of_cuts (ht x rfl) (by decide)
        simpa using hstart
  have hname (x : Char) (hx : cuts x = true) : Cursor.isNameChar x = false := Cursor.not_of_cuts hx (by decide)
  have hc := Prod.ext_iff.mp (parameterName_eq c)
  have hd := Prod.ext_iff.mp (parameterName_eq d)
  rw [h.head? (by decide), hany, h.takeWhile hname] at hd
  dsimp only at hc hd
  rw [hc.1, hc.2, hd.1, hd.2]
  split_ifs with hquestion hstart
  · refine ⟨rfl, h.step fun hnil => ?_⟩
    simp [hnil] at hquestion
  · exact ⟨rfl, h.skipWhile hname⟩
  · exact ⟨rfl, h⟩

theorem singleQuoted_cut (h : Cut n blanks stop c d) (hc : c.rest ≠ []) {text : String}
    (hread : passed (singleQuoted d) = .ok (text, d')) (hd : stop.length ≤ d'.size) :
    ∃ e, passed (singleQuoted c) = .ok (text, e) ∧ Cut n blanks stop e d' := by
  obtain ⟨x, r, hrest⟩ := List.exists_cons_of_ne_nil hc
  have hstep := h.step hc
  have hr := Cursor.rest_step hrest
  have hr' := Cursor.rest_step (h.rest_cons hrest)
  rw [passed_singleQuoted] at hread
  split_ifs at hread with hclosed
  · cases hread
  cases hread
  by_cases hall : (r.takeWhile (· != '\'')).length = r.length
  · -- the quotation goes on behind the blanks, so it ends behind the cut
    have hpast : (d.step.skipWhile (· != '\'')).rest = stop.dropWhile (· != '\'') := by
      have hblanks : ∀ x ∈ r ++ blanks, (x != '\'') = true := by
        intro x hx
        rcases List.mem_append.mp hx with hx | hx
        · rw [← (List.takeWhile_prefix (· != '\'')).eq_of_length hall] at hx
          simpa using List.mem_takeWhile_imp hx
        · exact bne_iff_ne.mpr (Cursor.ne_of_cuts (Cursor.cuts_of_isBlank (h.blank x hx)) (by decide))
      rw [Cursor.rest_skipWhile, hr', ← List.append_assoc, List.dropWhile_append_of_pos hblanks]
    have hlt : (d.step.skipWhile (· != '\'')).step.size + 1 = (d.step.skipWhile (· != '\'')).size := by
      rw [List.isEmpty_iff] at hclosed
      exact size_step_of_pos (List.length_pos_iff.mpr hclosed)
    have hle : (d.step.skipWhile (· != '\'')).size ≤ stop.length := by
      rw [Cursor.size, hpast]
      exact (List.dropWhile_sublist _).length_le
    omega
  · have htake : d.step.rest.takeWhile (· != '\'') = c.step.rest.takeWhile (· != '\'') := by
      rw [hr, hr', List.takeWhile_append, if_neg hall]
    have hskip : Cut n blanks stop (c.step.skipWhile (· != '\'')) (d.step.skipWhile (· != '\'')) := by
      unfold Cursor.skipWhile
      rw [htake]
      exact hstep.advance (List.takeWhile_sublist _).length_le
    have hne : (c.step.skipWhile (· != '\'')).rest ≠ [] := by
      intro hnil
      rw [Cursor.rest_skipWhile, hr, List.dropWhile_eq_nil_iff] at hnil
      exact hall (by rw [List.takeWhile_eq_self_iff.mpr hnil])
    refine ⟨_, ?_, hskip.step hne⟩
    rw [passed_singleQuoted, if_neg fun hempty => hne (List.isEmpty_iff.mp hempty), htake]

theorem itemOf_cut {leading : Bool} {w : Word} {i : Item} (h : itemOf leading d (Lines.word n w) = .ok i) :
    ∃ i₀, itemOf leading c w = .ok i₀ ∧ i = Placed.moved n [] i₀ := by
  cases leading with
  | false =>
    cases h
    exact ⟨.word w, rfl, rfl⟩
  | true =>
    simp only [itemOf, if_true, Lines.assignment?_word, Lines.plain?_word] at h ⊢
    cases hassign : assignment? w with
    | some a =>
      rw [hassign] at h
      cases h
      exact ⟨.assign a, rfl, rfl⟩
    | none =>
      rw [hassign] at h
      dsimp only [Option.map] at h ⊢
      split at h
      · rename_i text hplain
        split_ifs at h with hreserved
        · cases h
        · cases h
          exact ⟨.word w, if_neg hreserved, rfl⟩
      · rename_i hplain
        cases h
        exact ⟨.word w, rfl, rfl⟩

/-- What is read and put behind something was read to the same place. -/
theorem eq_ok_of_more {x : Except SyntaxError (Word × Cursor)} {k : Word × Cursor → Except SyntaxError (Word × Cursor)}
    {f : Word → Word} {w : Word} (h : (x >>= k) = .ok (w, d')) (hk : ∀ more e, k (more, e) = .ok (f more, e)) :
    ∃ more, x = .ok (more, d') ∧ w = f more := by
  obtain ⟨⟨more, e⟩, hx, h⟩ := eq_ok_of_bind h
  rw [hk] at h
  cases h
  exact ⟨more, hx, rfl⟩

/-- A quotation is not over before it has begun. -/
theorem lt_of_doubleQuoted {start : Cursor} {w : Word} (h : seen (doubleQuoted start d) = .ok (w, d')) :
    d'.size < d.size := by
  cases hrest : d.rest with
  | nil =>
    rw [doubleQuoted_nil hrest] at h
    cases h
  | cons x r =>
    have := Cursor.size_step hrest
    have := d.step.size_step_le
    by_cases hclose : x = '"'
    · subst hclose
      rw [doubleQuoted_close hrest] at h
      cases h
      omega
    by_cases hdollar : x = '$'
    · subst hdollar
      rw [doubleQuoted_dollar hrest] at h
      obtain ⟨⟨part, e⟩, hpart, h⟩ := eq_ok_of_bind h
      obtain ⟨more, hmore, -⟩ := eq_ok_of_more h fun _ _ => rfl
      exact (le_of_seen hmore).trans_lt (lt_of_passed hpart)
    by_cases hbacktick : x = '\x60'
    · subst hbacktick
      rw [doubleQuoted_backtick hrest] at h
      cases h
    by_cases hescape : x = '\\' ∧ r ≠ []
    · obtain ⟨rfl, hne⟩ := hescape
      obtain ⟨y, r, rfl⟩ := List.exists_cons_of_ne_nil hne
      rw [doubleQuoted_escape hrest] at h
      split_ifs at h
      · have := le_of_seen h
        omega
      all_goals
        obtain ⟨more, hmore, -⟩ := eq_ok_of_more h fun _ _ => rfl
        have := le_of_seen hmore
        omega
    · have hr : x = '\\' → r = [] := fun hx => Decidable.not_not.1 fun hne => hescape ⟨hx, hne⟩
      rw [doubleQuoted_plain hrest ⟨hclose, hdollar, hbacktick⟩ hr] at h
      obtain ⟨more, hmore, -⟩ := eq_ok_of_more h fun _ _ => rfl
      have := le_of_seen hmore
      omega

/-- A quotation that goes on behind a cut ends behind it. -/
theorem size_doubleQuoted_lt {start : Cursor} {w : Word} {more : List Char} (hrest : d.rest = more ++ stop)
    (hmore : ∀ x ∈ more, Cursor.isBlank x = true) (h : seen (doubleQuoted start d) = .ok (w, d')) :
    d'.size < stop.length := by
  induction more generalizing d w with
  | nil =>
    have hlt := lt_of_doubleQuoted h
    rwa [Cursor.size.eq_1 d, hrest] at hlt
  | cons x more ih =>
    rw [List.forall_mem_cons] at hmore
    have hcut := Cursor.cuts_of_isBlank hmore.1
    rw [List.cons_append] at hrest
    rw [doubleQuoted_plain hrest ⟨Cursor.ne_of_cuts hcut (by decide), Cursor.ne_of_cuts hcut (by decide),
      Cursor.ne_of_cuts hcut (by decide)⟩ fun hx => absurd hx (Cursor.ne_of_cuts hcut (by decide))] at h
    obtain ⟨⟨w', e⟩, hread, h⟩ := eq_ok_of_bind h
    cases h
    exact ih (Cursor.rest_step hrest) hmore.2 hread

/-- The same where a backslash stands right before the cut. -/
theorem size_doubleQuoted_escape_lt {start : Cursor} {w : Word} (hrest : d.rest = '\\' :: stop)
    (h : seen (doubleQuoted start d) = .ok (w, d')) : d'.size < stop.length := by
  have hstep := Cursor.rest_step hrest
  cases stop with
  | nil =>
    rw [doubleQuoted_plain hrest (by decide) fun _ => rfl] at h
    obtain ⟨⟨w', e⟩, hread, h⟩ := eq_ok_of_bind h
    rw [doubleQuoted_nil hstep] at hread
    cases hread
  | cons y stop =>
    have hsize : d.step.size = (y :: stop).length := congrArg List.length hstep
    have := Cursor.size_step hstep
    rw [doubleQuoted_escape hrest] at h
    split_ifs at h
    · have := le_of_seen h
      omega
    · obtain ⟨⟨w', e⟩, hread, h⟩ := eq_ok_of_bind h
      cases h
      have := le_of_seen hread
      omega
    · obtain ⟨⟨w', e⟩, hread, h⟩ := eq_ok_of_bind h
      cases h
      have := lt_of_doubleQuoted hread
      omega

/-- So does the text of a default. -/
theorem size_default_le {w : Word} {more : List Char} (hrest : d.rest = more ++ stop)
    (hmore : ∀ x ∈ more, Cursor.isBlank x = true) (h : seen (word true d) = .ok (w, d')) :
    d'.size ≤ stop.length := by
  induction more generalizing d w with
  | nil =>
    have hle := le_of_seen h
    rwa [Cursor.size.eq_1 d, hrest] at hle
  | cons x more ih =>
    rw [List.forall_mem_cons] at hmore
    have hcut := Cursor.cuts_of_isBlank hmore.1
    have hplain : isSpecial x = false := Cursor.not_of_cuts hcut (by decide)
    have hgoes : continues true x = true := bne_iff_ne.mpr (Cursor.ne_of_cuts hcut (by decide))
    rw [List.cons_append] at hrest
    rw [word_step hrest hgoes, piece_plain hrest hplain] at h
    obtain ⟨_, hpiece, h⟩ := eq_ok_of_bind h
    cases hpiece
    obtain ⟨⟨w', e⟩, hread, h⟩ := eq_ok_of_bind h
    cases h
    exact ih (Cursor.rest_step hrest) hmore.2 hread

/-! ## The functions of the parser -/

theorem bind_of_ok {α β : Type} {x : Except SyntaxError α} {f : α → Except SyntaxError β} {a : α} (h : x = .ok a) :
    (x >>= f) = f a := by
  rw [h]
  rfl

/-- Whether the name of a command is known once an item is read. -/
def Item.isWord : Item → Bool
  | .word _ => true
  | _ => false

/-- Where no item stands, none stands before the cut. -/
theorem item_cut_none {leading : Bool} (h : Cut n blanks stop c d)
    (hread : found (item? leading d) = .ok (none, d')) (hd : stop.length ≤ d'.size) :
    found (item? leading c) = .ok (none, c.skipBlanks) ∧ Cut n blanks stop c.skipBlanks d' := by
  rw [found_item] at hread
  have hend : d' = d.skipBlanks ∧ ∀ x r, d.skipBlanks.rest = x :: r → endsCommand x r = true := by
    split at hread
    · rename_i hnil
      cases hread
      exact ⟨rfl, fun x r hrest => by rw [hnil] at hrest; cases hrest⟩
    · rename_i x r hrest
      split_ifs at hread with hends
      · cases hread
        refine ⟨rfl, fun y r' hrest' => ?_⟩
        rw [hrest] at hrest'
        cases hrest'
        exact hends
      · cases hread
      · obtain ⟨_ | ⟨redirect, f⟩, -, hread⟩ := eq_ok_of_bind hread
        · obtain ⟨⟨parts, e⟩, -, hread⟩ := eq_ok_of_bind hread
          obtain ⟨⟨more, f⟩, -, hread⟩ := eq_ok_of_bind hread
          obtain ⟨i, -, hread⟩ := eq_ok_of_bind hread
          cases hread
        · cases hread
  obtain ⟨rfl, hends⟩ := hend
  have hs := h.skipBlanks hd
  refine ⟨?_, hs⟩
  rw [found_item]
  cases hrest : c.skipBlanks.rest with
  | nil => rfl
  | cons x r =>
    have hx := hends x _ (hs.rest_cons hrest)
    rw [endsCommand_cut (Cursor.cuts_of_mem_head? h.blank h.stops)] at hx
    exact if_pos hx

-- What is read of the longer text may end at `stop`, but not behind it. Where something is still open there,
-- it is closed behind it, so what stands in brackets and in defaults ends before `stop`. The induction is on
-- what is left of the longer text, and at one place on the order in which the functions call each other.

mutual

theorem cut_statements {closer : Closer} (hcloser : closer ≠ .endOfText) {c d d' : Cursor} {script : Script}
    (h : Cut n blanks stop c d) (hread : seen (statements closer d) = .ok (script, d'))
    (hd : stop.length < d'.size) :
    ∃ script₀ e, seen (statements closer c) = .ok (script₀, e) ∧ script = Lines.statements n script₀ ∧
      Cut n blanks stop e d' := by
  have := d.size_skipSeparators_le
  obtain ⟨hend, rfl, rfl⟩ | ⟨hstart, -, first, rest, f, more, hlist, hends, hmore, rfl⟩ := statements_cases hread
  · have hs := h.skipSeparators hd.le
    rw [holdsAt_cut hcloser hs (h.skipSeparators_ne_nil hd)] at hend
    exact ⟨[], c.skipSeparators, by rw [seen_statements, if_pos hend], rfl, hs⟩
  · have := lt_of_passed hlist
    have := f.size_skipBlanks_le
    have := le_of_seen hmore
    have hs := h.skipSeparators (by omega)
    have hne := h.skipSeparators_ne_nil (by omega)
    obtain ⟨first₀, rest₀, e, hlist₀, rfl, rfl, he⟩ := cut_andOr hs hlist (by omega)
    have hb := he.skipBlanks (by omega)
    have hbne := he.skipBlanks_ne_nil (by omega)
    obtain ⟨more₀, e', hmore₀, rfl, he'⟩ := cut_statements hcloser hb hmore hd
    -- the closer stands before the cut, so nothing read so far has come to the end of the shorter text
    rw [holdsAt_cut hcloser hs hne] at hstart
    rw [endsStatement_cut hb hbne] at hends
    have hene : e.rest ≠ [] := by
      intro hnil
      exact hbne (by rw [Cursor.skipBlanks_nil hnil, hnil])
    refine ⟨.mk first₀ rest₀ (Text.trim (String.ofList (c.skipSeparators.upTo e))) c.skipSeparators.line :: more₀,
      e', ?_, ?_, he'⟩
    · rw [seen_statements_cons first₀ rest₀ hstart hne hlist₀ hends]
      exact (bind_of_ok hmore₀).trans rfl
    · rw [hs.upTo he hne hene, hs.line]
      rfl
termination_by 16 * d.size + 9
decreasing_by all_goals omega

theorem cut_andOr {c d d' : Cursor} {first : Pipeline} {rest : List Link} (h : Cut n blanks stop c d)
    (hread : passed (andOr d) = .ok ((first, rest), d')) (hd : stop.length ≤ d'.size) :
    ∃ first₀ rest₀ e, passed (andOr c) = .ok ((first₀, rest₀), e) ∧ first = Lines.pipeline n first₀ ∧
      rest = Lines.links n rest₀ ∧ Cut n blanks stop e d' := by
  rw [passed_andOr] at hread
  obtain ⟨⟨p, f⟩, hp, hread⟩ := eq_ok_of_bind hread
  obtain ⟨⟨ls, f'⟩, hlinks, hread⟩ := eq_ok_of_bind hread
  cases hread
  have := lt_of_passed hp
  have := le_of_seen hlinks
  obtain ⟨first₀, e, hp₀, rfl, he⟩ := cut_pipeline h hp (by omega)
  obtain ⟨rest₀, e', hlinks₀, rfl, he'⟩ := cut_links he hlinks hd
  refine ⟨first₀, rest₀, e', ?_, rfl, rfl, he'⟩
  rw [passed_andOr]
  exact (bind_of_ok hp₀).trans ((bind_of_ok hlinks₀).trans rfl)
termination_by 16 * d.size + 8
decreasing_by all_goals omega

theorem cut_links {c d d' : Cursor} {rest : List Link} (h : Cut n blanks stop c d)
    (hread : seen (links d) = .ok (rest, d')) (hd : stop.length ≤ d'.size) :
    ∃ rest₀ e, seen (links c) = .ok (rest₀, e) ∧ rest = Lines.links n rest₀ ∧ Cut n blanks stop e d' := by
  rw [seen_links] at hread
  cases hconnector : connector? d.skipBlanks with
  | none =>
    rw [hconnector] at hread
    cases hread
    have hs := h.skipBlanks hd
    rw [connector?_cut hs] at hconnector
    exact ⟨[], c.skipBlanks, by rw [seen_links, hconnector], rfl, hs⟩
  | some connector =>
    rw [hconnector] at hread
    obtain ⟨⟨next, f⟩, hnext, hread⟩ := eq_ok_of_bind hread
    obtain ⟨⟨more, f'⟩, hmore, hread⟩ := eq_ok_of_bind hread
    cases hread
    have := two_le_of_connector hconnector
    have := d.size_skipBlanks_le
    have := d.skipBlanks.step.size_step_le
    have := size_step_of_pos (c := d.skipBlanks) (by omega)
    have := d.skipBlanks.step.step.size_skipLinebreaks_le
    have := lt_of_passed hnext
    have := le_of_seen hmore
    have hs := h.skipBlanks (by omega)
    rw [connector?_cut hs] at hconnector
    have hafter : Cut n blanks stop c.skipBlanks.step.step d.skipBlanks.step.step :=
      hs.advance (k := 2) (two_le_of_connector hconnector)
    obtain ⟨next₀, e, hnext₀, rfl, he⟩ := cut_pipeline (hafter.skipLinebreaks (by omega)) hnext (by omega)
    obtain ⟨more₀, e', hmore₀, rfl, he'⟩ := cut_links he hmore hd
    refine ⟨.mk connector next₀ :: more₀, e', ?_, rfl, he'⟩
    rw [seen_links, hconnector]
    exact (bind_of_ok hnext₀).trans ((bind_of_ok hmore₀).trans rfl)
termination_by 16 * d.size + 8
decreasing_by all_goals omega

theorem cut_pipeline {c d d' : Cursor} {p : Pipeline} (h : Cut n blanks stop c d)
    (hread : passed (pipeline d) = .ok (p, d')) (hd : stop.length ≤ d'.size) :
    ∃ p₀ e, passed (pipeline c) = .ok (p₀, e) ∧ p = Lines.pipeline n p₀ ∧ Cut n blanks stop e d' := by
  rw [passed_pipeline] at hread
  obtain ⟨⟨first, f⟩, hfirst, hread⟩ := eq_ok_of_bind hread
  obtain ⟨⟨more, f'⟩, hmore, hread⟩ := eq_ok_of_bind hread
  cases hread
  have := d.size_skipBlanks_le
  have := size_afterBang_le d.skipBlanks
  have := lt_of_passed hfirst
  have := le_of_seen hmore
  have hs := h.skipBlanks (by omega)
  obtain ⟨first₀, e, hfirst₀, rfl, he⟩ := cut_command (afterBang_cut hs) hfirst (by omega)
  obtain ⟨more₀, e', hmore₀, rfl, he'⟩ := cut_piped he hmore hd
  refine ⟨.mk (c.skipBlanks.atLone '!') (first₀ :: more₀), e', ?_, ?_, he'⟩
  · rw [passed_pipeline]
    exact (bind_of_ok hfirst₀).trans ((bind_of_ok hmore₀).trans rfl)
  · rw [hs.atLone (by decide)]
    rfl
termination_by 16 * d.size + 7
decreasing_by all_goals omega

theorem cut_piped {c d d' : Cursor} {commands : List Command} (h : Cut n blanks stop c d)
    (hread : seen (piped d) = .ok (commands, d')) (hd : stop.length ≤ d'.size) :
    ∃ commands₀ e, seen (piped c) = .ok (commands₀, e) ∧ commands = Lines.commands n commands₀ ∧
      Cut n blanks stop e d' := by
  rw [seen_piped] at hread
  cases hpipe : atPipe d.skipBlanks with
  | false =>
    rw [hpipe] at hread
    cases hread
    have hs := h.skipBlanks hd
    rw [atPipe_cut hs] at hpipe
    exact ⟨[], c.skipBlanks, by rw [seen_piped, hpipe]; rfl, rfl, hs⟩
  | true =>
    rw [hpipe, if_pos rfl] at hread
    obtain ⟨⟨next, f⟩, hnext, hread⟩ := eq_ok_of_bind hread
    obtain ⟨⟨more, f'⟩, hmore, hread⟩ := eq_ok_of_bind hread
    cases hread
    have := d.size_skipBlanks_le
    have := size_step_of_pos (one_le_of_atPipe hpipe)
    have := d.skipBlanks.step.size_skipLinebreaks_le
    have := lt_of_passed hnext
    have := le_of_seen hmore
    have hs := h.skipBlanks (by omega)
    rw [atPipe_cut hs] at hpipe
    have hafter : Cut n blanks stop c.skipBlanks.step d.skipBlanks.step :=
      hs.advance (k := 1) (one_le_of_atPipe hpipe)
    obtain ⟨next₀, e, hnext₀, rfl, he⟩ := cut_command (hafter.skipLinebreaks (by omega)) hnext (by omega)
    obtain ⟨more₀, e', hmore₀, rfl, he'⟩ := cut_piped he hmore hd
    refine ⟨next₀ :: more₀, e', ?_, rfl, he'⟩
    rw [seen_piped, hpipe, if_pos rfl]
    exact (bind_of_ok hnext₀).trans ((bind_of_ok hmore₀).trans rfl)
termination_by 16 * d.size + 7
decreasing_by all_goals omega

theorem cut_command {c d d' : Cursor} {found : Command} (h : Cut n blanks stop c d)
    (hread : passed (command d) = .ok (found, d')) (hd : stop.length ≤ d'.size) :
    ∃ found₀ e, passed (command c) = .ok (found₀, e) ∧ found = Lines.command n found₀ ∧
      Cut n blanks stop e d' := by
  have := d.size_skipBlanks_le
  by_cases hparen : d.skipBlanks.rest.head? = some '('
  · obtain ⟨r, hr⟩ := List.head?_eq_some_iff.mp hparen
    have := Cursor.size_step hr
    rw [passed_command_subshell hr] at hread
    split_ifs at hread with hdouble
    · cases hread
    obtain ⟨⟨script, f⟩, hscript, hread⟩ := eq_ok_of_bind hread
    obtain ⟨⟨redirects, f'⟩, hredirects, hread⟩ := eq_ok_of_bind hread
    cases hread
    have := le_of_seen hscript
    have := size_step_of_pos (one_le_of_closed (by decide) hscript)
    have := le_of_seen hredirects
    have hs := h.skipBlanks (by omega)
    obtain ⟨x, r₀, hr₀⟩ := List.exists_cons_of_ne_nil (h.skipBlanks_ne_nil (by omega))
    obtain ⟨rfl, rfl⟩ := List.cons.inj (hr.symm.trans (hs.rest_cons hr₀))
    have hopen := hs.step (by simp [hr₀])
    have hhead := hopen.head? (x := '(') (by decide)
    rw [Cursor.rest_step hr, Cursor.rest_step hr₀] at hhead
    rw [hhead] at hdouble
    obtain ⟨script₀, e, hscript₀, rfl, he⟩ := cut_statements (by decide) hopen hscript (by omega)
    have hclose : Cut n blanks stop e.step f.step := he.advance (k := 1) (one_le_of_closed (by decide) hscript₀)
    obtain ⟨redirects₀, e', hredirects₀, rfl, he'⟩ := cut_trailing hclose hredirects hd
    refine ⟨.subshell script₀ redirects₀, e', ?_, rfl, he'⟩
    rw [passed_command_subshell hr₀, if_neg hdouble]
    exact (bind_of_ok hscript₀).trans ((bind_of_ok hredirects₀).trans rfl)
  by_cases hbrace : d.skipBlanks.atLone '\x7b' = true
  · have := size_step_of_pos (one_le_of_atLone hbrace)
    rw [passed_command_group hbrace] at hread
    obtain ⟨⟨script, f⟩, hscript, hread⟩ := eq_ok_of_bind hread
    obtain ⟨⟨redirects, f'⟩, hredirects, hread⟩ := eq_ok_of_bind hread
    cases hread
    have := le_of_seen hscript
    have := size_step_of_pos (one_le_of_closed (by decide) hscript)
    have := le_of_seen hredirects
    have hs := h.skipBlanks (by omega)
    rw [hs.atLone (by decide)] at hbrace
    have hopen : Cut n blanks stop c.skipBlanks.step d.skipBlanks.step :=
      hs.advance (k := 1) (one_le_of_atLone hbrace)
    obtain ⟨script₀, e, hscript₀, rfl, he⟩ := cut_statements (by decide) hopen hscript (by omega)
    have hclose : Cut n blanks stop e.step f.step := he.advance (k := 1) (one_le_of_closed (by decide) hscript₀)
    obtain ⟨redirects₀, e', hredirects₀, rfl, he'⟩ := cut_trailing hclose hredirects hd
    refine ⟨.group script₀ redirects₀, e', ?_, rfl, he'⟩
    rw [passed_command_group hbrace]
    exact (bind_of_ok hscript₀).trans ((bind_of_ok hredirects₀).trans rfl)
  · rw [Bool.not_eq_true] at hbrace
    rw [passed_command_simple hparen hbrace] at hread
    have := lt_of_passed hread
    have hs := h.skipBlanks (by omega)
    rw [hs.atLone (by decide)] at hbrace
    have hparen₀ : c.skipBlanks.rest.head? ≠ some '(' := by
      rw [← beq_eq_false_iff_ne, ← hs.head? (by decide), beq_eq_false_iff_ne]
      exact hparen
    obtain ⟨found₀, e, hfound₀, rfl, he⟩ := cut_simple hs hread hd
    exact ⟨found₀, e, by rw [passed_command_simple hparen₀ hbrace, hfound₀], rfl, he⟩
termination_by 16 * d.size + 6
decreasing_by all_goals omega

theorem cut_trailing {c d d' : Cursor} {redirects : List Redirect} (h : Cut n blanks stop c d)
    (hread : seen (trailing d) = .ok (redirects, d')) (hd : stop.length ≤ d'.size) :
    ∃ redirects₀ e, seen (trailing c) = .ok (redirects₀, e) ∧ redirects = Lines.redirects n redirects₀ ∧
      Cut n blanks stop e d' := by
  rw [seen_trailing] at hread
  have := d.size_skipBlanks_le
  obtain ⟨_ | ⟨first, f⟩, hfirst, hread⟩ := eq_ok_of_bind hread
  · cases hread
    have hs := h.skipBlanks hd
    have hnone := cut_redirect hs hfirst nofun
    refine ⟨[], c.skipBlanks, ?_, rfl, hs⟩
    rw [seen_trailing]
    exact (bind_of_ok hnone).trans rfl
  · obtain ⟨⟨more, f'⟩, hmore, hread⟩ := eq_ok_of_bind hread
    cases hread
    have := lt_of_passed? hfirst
    have := le_of_seen hmore
    have hs := h.skipBlanks (by omega)
    obtain ⟨first₀, e, hfirst₀, rfl, he⟩ := cut_redirect hs hfirst (by rintro _ ⟨⟩; exact hd.trans this)
    obtain ⟨more₀, e', hmore₀, rfl, he'⟩ := cut_trailing he hmore hd
    refine ⟨first₀ :: more₀, e', ?_, rfl, he'⟩
    rw [seen_trailing]
    exact (bind_of_ok hfirst₀).trans ((bind_of_ok hmore₀).trans rfl)
termination_by 16 * d.size + 6
decreasing_by all_goals omega

theorem cut_simple {c d d' : Cursor} {found : Command} (h : Cut n blanks stop c d)
    (hread : passed (simple d) = .ok (found, d')) (hd : stop.length ≤ d'.size) :
    ∃ found₀ e, passed (simple c) = .ok (found₀, e) ∧ found = Lines.command n found₀ ∧
      Cut n blanks stop e d' := by
  rw [passed_simple] at hread
  obtain ⟨⟨_ | ⟨i, f⟩, s⟩, hitem, hread⟩ := eq_ok_of_bind hread
  · cases hread
  · obtain ⟨⟨parts, f'⟩, hitems, hread⟩ := eq_ok_of_bind hread
    have hall : (Command.simple (i.onto parts).1 (i.onto parts).2.1 (i.onto parts).2.2, f') = (found, d') :=
      Except.ok.inj hread
    clear hread
    obtain ⟨rfl, rfl⟩ := Prod.mk.inj hall
    have := lt_of_found hitem
    have := le_of_seen hitems
    obtain ⟨i₀, e, s₀, hitem₀, rfl, he⟩ := cut_item h hitem (by omega)
    have hitems : seen (items i₀.isWord f) = .ok (parts, f') := by cases i₀ <;> exact hitems
    obtain ⟨parts₀, e', hitems₀, rfl, he'⟩ := cut_items he hitems hd
    rw [onto_moved]
    refine ⟨.simple (i₀.onto parts₀).1 (i₀.onto parts₀).2.1 (i₀.onto parts₀).2.2, e', ?_, rfl, he'⟩
    rw [passed_simple]
    exact (bind_of_ok hitem₀).trans ((bind_of_ok hitems₀).trans rfl)
termination_by 16 * d.size + 5
decreasing_by all_goals omega

theorem cut_items {named : Bool} {c d d' : Cursor} {parts : Parts} (h : Cut n blanks stop c d)
    (hread : seen (items named d) = .ok (parts, d')) (hd : stop.length ≤ d'.size) :
    ∃ parts₀ e, seen (items named c) = .ok (parts₀, e) ∧ parts = Placed.moved n [] parts₀ ∧
      Cut n blanks stop e d' := by
  rw [seen_items] at hread
  obtain ⟨⟨_ | ⟨i, f⟩, s⟩, hitem, hread⟩ := eq_ok_of_bind hread
  · cases hread
    obtain ⟨hnone, hs⟩ := item_cut_none h hitem hd
    refine ⟨([], [], []), c.skipBlanks, ?_, rfl, hs⟩
    rw [seen_items]
    exact (bind_of_ok hnone).trans rfl
  · obtain ⟨⟨more, f'⟩, hitems, hread⟩ := eq_ok_of_bind hread
    have hall : (i.onto more, f') = (parts, d') := Except.ok.inj hread
    clear hread
    obtain ⟨rfl, rfl⟩ := Prod.mk.inj hall
    have := lt_of_found hitem
    have := le_of_seen hitems
    obtain ⟨i₀, e, s₀, hitem₀, rfl, he⟩ := cut_item h hitem (by omega)
    have hitems : seen (items (named || i₀.isWord) f) = .ok (more, f') := by cases i₀ <;> exact hitems
    obtain ⟨more₀, e', hitems₀, rfl, he'⟩ := cut_items he hitems hd
    refine ⟨i₀.onto more₀, e', ?_, onto_moved i₀ more₀, he'⟩
    rw [seen_items]
    exact (bind_of_ok hitem₀).trans ((bind_of_ok hitems₀).trans rfl)
termination_by 16 * d.size + 5
decreasing_by all_goals omega

theorem cut_item {leading : Bool} {c d d' s : Cursor} {i : Item} (h : Cut n blanks stop c d)
    (hread : found (item? leading d) = .ok (some (i, d'), s)) (hd : stop.length ≤ d'.size) :
    ∃ i₀ e s₀, found (item? leading c) = .ok (some (i₀, e), s₀) ∧ i = Placed.moved n [] i₀ ∧
      Cut n blanks stop e d' := by
  rw [found_item] at hread
  have := d.size_skipBlanks_le
  cases hrest : d.skipBlanks.rest with
  | nil =>
    rw [hrest] at hread
    cases hread
  | cons x r =>
    rw [hrest] at hread
    dsimp only at hread
    split_ifs at hread with hends hparen
    · cases hread
    · cases hread
    have hlt : d'.size < d.skipBlanks.size := by
      obtain ⟨_ | ⟨redirect, f⟩, hredirect, hread⟩ := eq_ok_of_bind hread
      · obtain ⟨⟨parts, f⟩, hpiece, hread⟩ := eq_ok_of_bind hread
        obtain ⟨⟨more, f'⟩, hmore, hread⟩ := eq_ok_of_bind hread
        obtain ⟨i, -, hread⟩ := eq_ok_of_bind hread
        cases hread
        exact (le_of_seen hmore).trans_lt (lt_of_passed hpiece)
      · cases hread
        exact lt_of_passed? hredirect
    have hs := h.skipBlanks (by omega)
    obtain ⟨y, r₀, hr₀⟩ := List.exists_cons_of_ne_nil (h.skipBlanks_ne_nil (by omega))
    obtain ⟨rfl, rfl⟩ := List.cons.inj (hrest.symm.trans (hs.rest_cons hr₀))
    rw [endsCommand_cut (Cursor.cuts_of_mem_head? h.blank h.stops)] at hends
    have hitem : found (item? leading c) = _ := found_item leading c
    rw [hr₀] at hitem
    dsimp only at hitem
    rw [if_neg hends, if_neg hparen] at hitem
    rw [hitem]
    obtain ⟨_ | ⟨redirect, f⟩, hredirect, hread⟩ := eq_ok_of_bind hread
    · obtain ⟨⟨parts, f⟩, hpiece, hread⟩ := eq_ok_of_bind hread
      obtain ⟨⟨more, f'⟩, hmore, hread⟩ := eq_ok_of_bind hread
      obtain ⟨i, hi, hread⟩ := eq_ok_of_bind hread
      cases hread
      have := lt_of_passed hpiece
      have hle : f'.size ≤ f.size := le_of_seen hmore
      have hd : stop.length ≤ f'.size := hd
      have hnone := cut_redirect hs hredirect nofun
      obtain ⟨parts₀, e, hpiece₀, rfl, he⟩ := cut_piece hs hr₀ hpiece (by omega)
      obtain ⟨more₀, e', hmore₀, rfl, he'⟩ := cut_word he hmore hd fun h => Bool.noConfusion h
      rw [← Lines.word_foldr] at hi
      obtain ⟨i₀, hi₀, rfl⟩ := itemOf_cut (c := c.skipBlanks) hi
      refine ⟨i₀, e', c.skipBlanks, ?_, rfl, he'⟩
      exact (bind_of_ok hnone).trans ((bind_of_ok hpiece₀).trans ((bind_of_ok hmore₀).trans
        ((bind_of_ok hi₀).trans rfl)))
    · cases hread
      obtain ⟨redirect₀, e, hredirect₀, rfl, he⟩ := cut_redirect hs hredirect (by rintro _ ⟨⟩; exact hd)
      exact ⟨.redirect redirect₀, e, c.skipBlanks, (bind_of_ok hredirect₀).trans rfl, rfl, he⟩
termination_by 16 * d.size + 4
decreasing_by all_goals omega

theorem cut_redirect {c d : Cursor} {o : Option (Redirect × Cursor)} (h : Cut n blanks stop c d)
    (hread : passed? (redirect? d) = .ok o) (hd : ∀ p ∈ o, stop.length ≤ p.2.size) :
    Finds n blanks stop (Lines.redirect n) (passed? (redirect? c)) o := by
  rw [passed?_redirect] at hread ⊢
  obtain ⟨_ | ⟨⟨fd, kind⟩, s⟩, hoperator, hread⟩ := eq_ok_of_bind hread
  · cases hread
    exact (bind_of_ok (finds_redirectOperator h hoperator)).trans rfl
  · obtain ⟨⟨target, f⟩, hword, hread⟩ := eq_ok_of_bind hread
    dsimp only at hread
    split_ifs at hread with hempty hnumber
    · cases hread
    · cases hread
    cases hread
    have := lt_of_passed? hoperator
    have := s.size_skipBlanks_le
    have := le_of_seen hword
    have hd : stop.length ≤ f.size := hd _ rfl
    obtain ⟨operator, s₀, hoperator₀, hsame, hs⟩ := finds_redirectOperator h hoperator
    obtain rfl : (fd, kind) = operator := hsame
    obtain ⟨target₀, e, hword₀, rfl, he⟩ := cut_word (hs.skipBlanks (by omega)) hword hd
      fun h => Bool.noConfusion h
    rw [Lines.isEmpty_word] at hempty
    rw [Lines.plain?_word] at hnumber
    refine ⟨.mk fd kind target₀, e, ?_, rfl, he⟩
    refine (bind_of_ok hoperator₀).trans ((bind_of_ok hword₀).trans ?_)
    dsimp only
    rw [if_neg hempty, if_neg hnumber]
    rfl
termination_by 16 * d.size + 3
decreasing_by all_goals omega

/-- The text of a default goes on over a cut, so something has to be left of it. -/
theorem cut_word {inDefault : Bool} {c d d' : Cursor} {w : Word} (h : Cut n blanks stop c d)
    (hread : seen (word inDefault d) = .ok (w, d')) (hd : stop.length ≤ d'.size)
    (hdefault : inDefault = true → stop.length < d'.size) :
    ∃ w₀ e, seen (word inDefault c) = .ok (w₀, e) ∧ w = Lines.word n w₀ ∧ Cut n blanks stop e d' := by
  cases hrest : c.rest with
  | nil =>
    cases inDefault with
    | true =>
      obtain ⟨more, hmore, hblank⟩ := h.rest_nil hrest
      have := size_default_le hmore hblank hread
      have := hdefault rfl
      omega
    | false =>
      obtain ⟨t, ht, hcuts⟩ := h.tail
      rw [hrest, List.nil_append] at ht
      have hstop : seen (word false d) = .ok ([], d) := by
        cases t with
        | nil => exact word_nil ht
        | cons x t =>
          have hmeta := Cursor.isMeta_of_cuts (hcuts x rfl)
          exact word_stop ht (by simp [continues, hmeta])
      rw [hstop] at hread
      cases hread
      exact ⟨[], c, word_nil hrest, rfl, h⟩
  | cons x r =>
    cases hx : continues inDefault x with
    | false =>
      rw [word_stop (h.rest_cons hrest) hx] at hread
      cases hread
      exact ⟨[], c, word_stop hrest hx, rfl, h⟩
    | true =>
      rw [word_step (h.rest_cons hrest) hx] at hread
      obtain ⟨⟨parts, f⟩, hpiece, hread⟩ := eq_ok_of_bind hread
      obtain ⟨⟨more, f'⟩, hmore, hread⟩ := eq_ok_of_bind hread
      cases hread
      have := lt_of_passed hpiece
      have := le_of_seen hmore
      obtain ⟨parts₀, e, hpiece₀, rfl, he⟩ := cut_piece h hrest hpiece (by omega)
      obtain ⟨more₀, e', hmore₀, rfl, he'⟩ := cut_word he hmore hd hdefault
      refine ⟨parts₀.foldr Word.cons more₀, e', ?_, (Lines.word_foldr n parts₀ more₀).symm, he'⟩
      rw [word_step hrest hx]
      exact (bind_of_ok hpiece₀).trans ((bind_of_ok hmore₀).trans rfl)
termination_by 16 * d.size + 2
decreasing_by all_goals omega

theorem cut_piece {c d d' : Cursor} {parts : Word} {x : Char} {r : List Char} (h : Cut n blanks stop c d)
    (hrest : c.rest = x :: r) (hread : passed (piece d) = .ok (parts, d')) (hd : stop.length ≤ d'.size) :
    ∃ parts₀ e, passed (piece c) = .ok (parts₀, e) ∧ parts = Lines.word n parts₀ ∧
      Cut n blanks stop e d' := by
  have hrest' := h.rest_cons hrest
  have hone := h.step (by simp [hrest])
  have := Cursor.size_step hrest'
  cases hx : isSpecial x with
  | false =>
    rw [piece_plain hrest' hx] at hread
    cases hread
    exact ⟨_, c.step, piece_plain hrest hx, rfl, hone⟩
  | true =>
    simp only [isSpecial, Bool.or_eq_true, beq_iff_eq] at hx
    obtain (((rfl | rfl) | rfl) | rfl) | rfl := hx
    · cases r with
      | nil =>
        -- an escape at the end would take away what the statement ends at
        have hnone : blanks = [] := h.unescaped.resolve_right fun hlast => hlast (by rw [hrest]; rfl)
        subst hnone
        cases stop with
        | nil =>
          rw [piece_backslash hrest'] at hread
          cases hread
          exact ⟨_, c.step, piece_backslash hrest, rfl, hone⟩
        | cons y stop =>
          have hlt : d.step.step.size < (y :: stop).length := by
            have := Cursor.size_step (Cursor.rest_step hrest')
            have hsize := congrArg List.length hrest'
            simp only [Cursor.size, List.length_cons, List.nil_append] at *
            omega
          by_cases hy : y = '\n'
          · subst hy
            rw [piece_continuation hrest'] at hread
            cases hread
            omega
          · rw [piece_escape hrest' hy] at hread
            cases hread
            omega
      | cons y r =>
        have htwo := hone.step (by simp [Cursor.rest_step hrest])
        by_cases hy : y = '\n'
        · subst hy
          rw [piece_continuation hrest'] at hread
          cases hread
          exact ⟨[], _, piece_continuation hrest, rfl, htwo⟩
        · rw [piece_escape hrest' hy] at hread
          cases hread
          exact ⟨_, _, piece_escape hrest hy, rfl, htwo⟩
    · rw [piece_single hrest'] at hread
      obtain ⟨⟨text, f⟩, hsingle, hread⟩ := eq_ok_of_bind hread
      cases hread
      obtain ⟨e, hsingle₀, he⟩ := singleQuoted_cut h (by simp [hrest]) hsingle hd
      refine ⟨[.literal text true], e, ?_, rfl, he⟩
      rw [piece_single hrest]
      exact (bind_of_ok hsingle₀).trans rfl
    · rw [piece_double hrest'] at hread
      obtain ⟨⟨quotation, f⟩, hdouble, hread⟩ := eq_ok_of_bind hread
      cases hread
      obtain ⟨quotation₀, e, hdouble₀, rfl, he⟩ := cut_doubleQuoted c hone hdouble hd
      refine ⟨Word.cons (.literal "" true) quotation₀, e, ?_, (Lines.word_cons n (.literal "" true) quotation₀).symm, he⟩
      rw [piece_double hrest]
      exact (bind_of_ok hdouble₀).trans rfl
    · rw [piece_dollar hrest'] at hread
      obtain ⟨⟨part, f⟩, hdollar, hread⟩ := eq_ok_of_bind hread
      cases hread
      obtain ⟨part₀, e, hdollar₀, rfl, he⟩ := cut_dollar h hrest hdollar hd
      refine ⟨[part₀], e, ?_, rfl, he⟩
      rw [piece_dollar hrest]
      exact (bind_of_ok hdollar₀).trans rfl
    · rw [piece_backtick hrest'] at hread
      cases hread
termination_by 16 * d.size + 1
decreasing_by all_goals omega

theorem cut_doubleQuoted {start : Cursor} (start₀ : Cursor) {c d d' : Cursor} {w : Word} (h : Cut n blanks stop c d)
    (hread : seen (doubleQuoted start d) = .ok (w, d')) (hd : stop.length ≤ d'.size) :
    ∃ w₀ e, seen (doubleQuoted start₀ c) = .ok (w₀, e) ∧ w = Lines.word n w₀ ∧ Cut n blanks stop e d' := by
  cases hrest : c.rest with
  | nil =>
    obtain ⟨more, hmore, hblank⟩ := h.rest_nil hrest
    have := size_doubleQuoted_lt hmore hblank hread
    omega
  | cons x r =>
    have hrest' := h.rest_cons hrest
    have hone := h.step (by simp [hrest])
    have := Cursor.size_step hrest'
    have hliteral {e f : Cursor} (he : Cut n blanks stop e f) (hlt : f.size < d.size) {text : String}
        {k : Word × Cursor → Except SyntaxError (Word × Cursor)}
        (hread : (seen (doubleQuoted start f) >>= k) = .ok (w, d'))
        (hk : ∀ more e', k (more, e') = .ok (Word.cons (.literal text true) more, e')) :
        ∃ w₀ e', (seen (doubleQuoted start₀ e) >>= k) = .ok (w₀, e') ∧ w = Lines.word n w₀ ∧
          Cut n blanks stop e' d' := by
      obtain ⟨more, hmore, rfl⟩ := eq_ok_of_more hread hk
      obtain ⟨more₀, e', hmore₀, rfl, he'⟩ := cut_doubleQuoted start₀ he hmore hd
      exact ⟨_, e', (bind_of_ok hmore₀).trans (hk _ _), (Lines.word_cons n (.literal text true) more₀).symm, he'⟩
    by_cases hclose : x = '"'
    · subst hclose
      rw [doubleQuoted_close hrest'] at hread
      cases hread
      exact ⟨[], c.step, doubleQuoted_close hrest, rfl, hone⟩
    by_cases hdollar : x = '$'
    · subst hdollar
      rw [doubleQuoted_dollar hrest'] at hread
      obtain ⟨⟨part, f⟩, hpart, hread⟩ := eq_ok_of_bind hread
      obtain ⟨⟨more, f'⟩, hmore, hread⟩ := eq_ok_of_bind hread
      cases hread
      have := lt_of_passed hpart
      have hle : d'.size ≤ f.size := le_of_seen hmore
      obtain ⟨part₀, e, hpart₀, rfl, he⟩ := cut_dollar h hrest hpart (by omega)
      obtain ⟨more₀, e', hmore₀, rfl, he'⟩ := cut_doubleQuoted start₀ he hmore hd
      refine ⟨Word.cons part₀ more₀, e', ?_, (Lines.word_cons n part₀ more₀).symm, he'⟩
      rw [doubleQuoted_dollar hrest]
      exact (bind_of_ok hpart₀).trans ((bind_of_ok hmore₀).trans rfl)
    by_cases hbacktick : x = '\x60'
    · subst hbacktick
      rw [doubleQuoted_backtick hrest'] at hread
      cases hread
    by_cases hescape : x = '\\'
    · subst hescape
      cases r with
      | nil =>
        -- the quotation goes on behind the backslash, so it ends behind the cut
        have hnone : blanks = [] := h.unescaped.resolve_right fun hlast => hlast (by rw [hrest]; rfl)
        subst hnone
        have hlt : d'.size < stop.length := size_doubleQuoted_escape_lt hrest' hread
        omega
      | cons y r =>
        have htwo := hone.step (by simp [Cursor.rest_step hrest])
        have := Cursor.size_step (Cursor.rest_step hrest')
        rw [doubleQuoted_escape hrest'] at hread
        rw [doubleQuoted_escape hrest]
        split_ifs at hread ⊢
        · exact cut_doubleQuoted start₀ htwo hread hd
        · exact hliteral htwo (by omega) hread fun _ _ => rfl
        · exact hliteral hone (by omega) hread fun _ _ => rfl
    · have hbare : x = '\\' → False := hescape
      rw [doubleQuoted_plain hrest' ⟨hclose, hdollar, hbacktick⟩ fun hx => (hbare hx).elim] at hread
      rw [doubleQuoted_plain hrest ⟨hclose, hdollar, hbacktick⟩ fun hx => (hbare hx).elim]
      exact hliteral hone (by omega) hread fun _ _ => rfl
termination_by 16 * d.size + 1
decreasing_by all_goals omega

theorem cut_dollar {quoted : Bool} {c d d' : Cursor} {part : Part} {r : List Char} (h : Cut n blanks stop c d)
    (hrest : c.rest = '$' :: r) (hread : passed (dollar quoted d) = .ok (part, d')) (hd : stop.length ≤ d'.size) :
    ∃ part₀ e, passed (dollar quoted c) = .ok (part₀, e) ∧ part = Lines.part n part₀ ∧ Cut n blanks stop e d' := by
  have hrest' := h.rest_cons hrest
  have hone := h.step (by simp [hrest])
  have := Cursor.size_step hrest'
  by_cases halone : ∀ x ∈ r.head?, x ≠ '\x7b' ∧ x ≠ '(' ∧ startsParameter x = false
  · have halone' : ∀ x ∈ (r ++ (blanks ++ stop)).head?, x ≠ '\x7b' ∧ x ≠ '(' ∧ startsParameter x = false := by
      cases r with
      | cons x r => exact halone
      | nil =>
        intro x hx
        have hcut := Cursor.cuts_of_mem_head? h.blank h.stops x hx
        exact ⟨Cursor.ne_of_cuts hcut (by decide), Cursor.ne_of_cuts hcut (by decide),
          Cursor.not_of_cuts hcut (by decide)⟩
    rw [dollar_alone hrest' halone'] at hread
    cases hread
    exact ⟨.literal "$" quoted, c.step, dollar_alone hrest halone, rfl, hone⟩
  cases r with
  | nil => exact absurd nofun halone
  | cons x r =>
    have hrest₁ := Cursor.rest_step hrest
    have := Cursor.size_step (Cursor.rest_step hrest')
    have htwo := hone.step (by simp [hrest₁])
    by_cases hbrace : x = '\x7b'
    · subst hbrace
      obtain ⟨hvalue, hnext⟩ := parameterName_cut htwo
      have hle := (parameterName d.step.step).le
      rw [dollar_brace hrest', hvalue, hnext.isPrefixOf (by decide), hnext.isPrefixOf (by decide)] at hread
      rw [dollar_brace hrest]
      split_ifs at hread ⊢ with hempty hclose hfallback
      · cases hread
      · cases hread
        exact ⟨_, _, rfl, rfl, hnext.advance (k := 1) (le_of_isPrefixOf hclose)⟩
      · obtain ⟨⟨fallback, f⟩, hword, hread⟩ := eq_ok_of_bind hread
        dsimp only at hread
        split_ifs at hread with hend
        · cases hread
          have := (parameterName d.step.step).next.size_step_le
          have := (parameterName d.step.step).next.step.size_step_le
          have := size_step_of_pos (le_of_isPrefixOf hend)
          have hafter : Cut n blanks stop (parameterName c.step.step).next.step.step
              (parameterName d.step.step).next.step.step := hnext.advance (k := 2) (le_of_isPrefixOf hfallback)
          obtain ⟨fallback₀, e, hword₀, rfl, he⟩ := cut_word hafter hword (by omega) fun _ => by omega
          rw [he.isPrefixOf (by decide)] at hend
          refine ⟨.param (parameterName c.step.step).value (some fallback₀) quoted, e.step, ?_, rfl,
            he.advance (k := 1) (le_of_isPrefixOf hend)⟩
          refine (bind_of_ok hword₀).trans ?_
          dsimp only
          rw [if_pos hend]
          rfl
        · cases hread
      · cases hread
    by_cases hparen : x = '('
    · subst hparen
      have hhead := htwo.head? (x := '(') (by decide)
      rw [Cursor.rest_step (Cursor.rest_step hrest'), Cursor.rest_step hrest₁] at hhead
      rw [dollar_paren hrest', hhead] at hread
      rw [dollar_paren hrest]
      split_ifs at hread ⊢
      · cases hread
      · obtain ⟨⟨script, f⟩, hscript, hread⟩ := eq_ok_of_bind hread
        cases hread
        have := size_step_of_pos (one_le_of_closed (by decide) hscript)
        obtain ⟨script₀, e, hscript₀, rfl, he⟩ := cut_statements (by decide) htwo hscript (by omega)
        refine ⟨.subst script₀ quoted, e.step, (bind_of_ok hscript₀).trans rfl, rfl,
          he.advance (k := 1) (one_le_of_closed (by decide) hscript₀)⟩
    · have hname : startsParameter x = true := by
        cases hx : startsParameter x with
        | true => rfl
        | false => exact absurd (fun y hy => by cases hy; exact ⟨hbrace, hparen, hx⟩) halone
      obtain ⟨hvalue, hnext⟩ := parameterName_cut hone
      rw [dollar_name hrest' hname] at hread
      cases hread
      exact ⟨_, _, dollar_name hrest hname, by rw [hvalue]; rfl, hnext⟩
termination_by 16 * d.size
decreasing_by all_goals omega

end

end Parser

end Taskwork.Shell
