/-
Scripts and places further down a text. A statement knows its line, and so do those in its
substitutions, groups and subshells; a place knows its line and the text after it. What comes before a
place only adds to the lines, and what follows after a newline changes neither the gaps between words
nor the words, unless a backslash joins the two lines.
-/
import Taskwork.Proofs.Shell.Quoting

namespace Taskwork.Shell

/-! ## Further down -/

namespace Lines

mutual

/-- Parts of a word that stand `n` lines further down. -/
def part (n : Nat) : Part → Part
  | .literal text quoted => .literal text quoted
  | .param name fallback quoted => .param name (optional n fallback) quoted
  | .subst script quoted => .subst (statements n script) quoted

def word (n : Nat) : List Part → List Part
  | [] => []
  | p :: rest => part n p :: word n rest

def optional (n : Nat) : Option (List Part) → Option (List Part)
  | none => none
  | some w => some (word n w)

def words (n : Nat) : List (List Part) → List (List Part)
  | [] => []
  | w :: rest => word n w :: words n rest

def assign (n : Nat) : Assign → Assign
  | ⟨name, value⟩ => ⟨name, word n value⟩

def assigns (n : Nat) : List Assign → List Assign
  | [] => []
  | a :: rest => assign n a :: assigns n rest

def redirect (n : Nat) : Redirect → Redirect
  | ⟨fd, kind, target⟩ => ⟨fd, kind, word n target⟩

def redirects (n : Nat) : List Redirect → List Redirect
  | [] => []
  | r :: rest => redirect n r :: redirects n rest

def command (n : Nat) : Command → Command
  | .simple as ws rs => .simple (assigns n as) (words n ws) (redirects n rs)
  | .subshell script rs => .subshell (statements n script) (redirects n rs)
  | .group script rs => .group (statements n script) (redirects n rs)

def commands (n : Nat) : List Command → List Command
  | [] => []
  | c :: rest => command n c :: commands n rest

def pipeline (n : Nat) : Pipeline → Pipeline
  | ⟨negated, cs⟩ => ⟨negated, commands n cs⟩

def links (n : Nat) : List Link → List Link
  | [] => []
  | ⟨connector, p⟩ :: rest => ⟨connector, pipeline n p⟩ :: links n rest

/-- A statement that stands `n` lines further down, with all statements in it. -/
def statement (n : Nat) : Statement → Statement
  | ⟨first, rest, text, line⟩ => ⟨pipeline n first, links n rest, text, line + n⟩

def statements (n : Nat) : List Statement → List Statement
  | [] => []
  | s :: rest => statement n s :: statements n rest

end

/-- A fault that is found `n` lines further down. -/
def fault (n : Nat) (e : SyntaxError) : SyntaxError := { e with line := e.line + n }

theorem word_cons (n : Nat) (p : Part) (w : Word) :
    word n (Word.cons p w) = Word.cons (part n p) (word n w) := by
  cases p with
  | literal a q =>
    cases w with
    | nil => rfl
    | cons r w =>
      cases r with
      | literal b q' =>
        simp only [Word.cons, word, part]
        split <;> rfl
      | param name fallback q' => rfl
      | subst script q' => rfl
  | param name fallback q => rfl
  | subst script q => rfl

theorem word_foldr (n : Nat) (ps w : Word) :
    word n (ps.foldr Word.cons w) = (word n ps).foldr Word.cons (word n w) := by
  induction ps with
  | nil => rfl
  | cons p ps ih => rw [List.foldr_cons, word_cons, ih, word, List.foldr_cons]

theorem plain?_word (n : Nat) : ∀ w : Word, Word.plain? (word n w) = Word.plain? w
  | [] => rfl
  | .literal text true :: w => rfl
  | .literal text false :: w => by rw [word, part, Word.plain?, plain?_word n w, Word.plain?]
  | .param name fallback q :: w => rfl
  | .subst script q :: w => rfl

theorem isEmpty_word (n : Nat) (w : Word) : (word n w).isEmpty = w.isEmpty := by
  cases w <;> rfl

theorem assignment?_word (n : Nat) (w : Word) :
    Parser.assignment? (word n w) = (Parser.assignment? w).map (assign n) := by
  cases w with
  | nil => rfl
  | cons p w =>
    cases p with
    | literal text q =>
      cases q with
      | true => rfl
      | false =>
        simp only [word, part, Parser.assignment?]
        cases text.toList.dropWhile (· != '=') with
        | nil => rfl
        | cons x value =>
          dsimp only
          split
          · cases value <;> rfl
          · rfl
    | param name fallback q => rfl
    | subst script q => rfl

end Lines

/-! ## Places -/

namespace Cursor

/-- The same place when `n` lines come before its text and `tail` after it. -/
def moved (n : Nat) (tail : List Char) (c : Cursor) : Cursor := ⟨c.rest ++ tail, c.line + n, c.column⟩

/-- A place that moving forward from `o` leads to. -/
def Within (o c : Cursor) : Prop := ∃ k, c = o.advance k

/-- The text at a place is closed by what follows it: that is nothing, or it starts on a new line that
no backslash joins to the last one. -/
def ClosedBy (tail : List Char) (c : Cursor) : Prop :=
  tail = [] ∨ (∃ b, tail = '\n' :: b) ∧ c.rest.getLast? ≠ some '\\'

theorem advance_add (j k : Nat) (c : Cursor) : c.advance (j + k) = (c.advance j).advance k := by
  induction j generalizing c with
  | zero => rw [Nat.zero_add]; rfl
  | succ j ih => rw [Nat.succ_add, advance, ih]; rfl

theorem advance_one (c : Cursor) : c.advance 1 = c.step := rfl

namespace Within

variable {o c : Cursor}

theorem refl (o : Cursor) : o.Within o := ⟨0, rfl⟩

theorem advance (h : o.Within c) (k : Nat) : o.Within (c.advance k) := by
  obtain ⟨j, rfl⟩ := h
  exact ⟨j + k, (advance_add j k o).symm⟩

theorem step (h : o.Within c) : o.Within c.step := h.advance 1

theorem skipWhile (h : o.Within c) (p : Char → Bool) : o.Within (c.skipWhile p) := h.advance _

theorem skipBlanks (h : o.Within c) : o.Within c.skipBlanks := h.advance _

theorem skipLinebreaks (h : o.Within c) : o.Within c.skipLinebreaks := h.advance _

theorem skipSeparators (h : o.Within c) : o.Within c.skipSeparators := h.advance _

end Within

theorem ClosedBy.within {tail : List Char} {o c : Cursor} (ho : o.ClosedBy tail) (h : o.Within c) :
    c.ClosedBy tail := by
  rcases ho with rfl | ⟨hb, hlast⟩
  · exact .inl rfl
  · refine .inr ⟨hb, ?_⟩
    obtain ⟨k, rfl⟩ := h
    rw [rest_advance, List.getLast?_drop]
    split
    · exact nofun
    · exact hlast

/-- The line at the end of a text. -/
theorem Within.line_eq {o c : Cursor} (h : o.Within c) :
    c.line + c.rest.count '\n' = o.line + o.rest.count '\n' := by
  obtain ⟨k, rfl⟩ := h
  induction k generalizing o with
  | zero => rfl
  | succ k ih =>
    rw [Cursor.advance, ih]
    unfold Cursor.step
    split <;> rename_i hrest
    · rfl
    · rw [hrest, List.count_cons_self]
      dsimp only
      omega
    · rename_i hne
      rw [hrest, List.count_cons_of_ne (fun heq => hne heq)]

/-! ## Moving over text that is followed by more -/

variable {n : Nat} {tail : List Char} {c : Cursor}

/-- The same for a text alone. -/
def Closed (tail cs : List Char) : Prop :=
  tail = [] ∨ (∃ b, tail = '\n' :: b) ∧ cs.getLast? ≠ some '\\'

theorem Closed.of_cons {x : Char} {cs : List Char} (h : Closed tail (x :: cs)) : Closed tail cs := by
  rcases h with rfl | ⟨hb, hlast⟩
  · exact .inl rfl
  · refine .inr ⟨hb, ?_⟩
    cases cs with
    | nil => exact nofun
    | cons y cs => rwa [List.getLast?_cons_cons] at hlast

/-- A line continuation at the end of a text would be one without what follows. -/
theorem Closed.no_continuation {x : Char} {cs : List Char} (h : Closed tail (x :: cs))
    (hx : ∀ r, x = '\\' → cs = '\n' :: r → False) (r : List Char) (hx' : x = '\\')
    (hr : cs ++ tail = '\n' :: r) : False := by
  subst hx'
  cases cs with
  | cons y cs =>
    obtain ⟨rfl, -⟩ := List.cons.inj hr
    exact hx cs rfl rfl
  | nil =>
    rcases h with rfl | ⟨-, hlast⟩
    · cases hr
    · exact hlast rfl

theorem gap_cons {between : Char → Bool} {x : Char} {r : List Char}
    (hx : ∀ r', x = '\\' → r = '\n' :: r' → False) :
    gap between false (x :: r) =
      if x = '#' then 1 + gap between true r
      else if isBlank x || between x then 1 + gap between false r
      else 0 := by
  rw [gap]
  exact hx

/-- Where a gap ends before the text does, or the newline after the text is not part of it, it is
the same with more text after it. -/
theorem gap_append {between : Char → Bool} {comment : Bool} {cs : List Char} (hcs : Closed tail cs)
    (h : gap between comment cs < cs.length ∨ tail = [] ∨ between '\n' = false) :
    gap between comment (cs ++ tail) = gap between comment cs := by
  induction comment, cs using gap.induct between with
  | case1 comment =>
    rcases h with h | h
    · cases h
    · rcases hcs with rfl | ⟨⟨b, rfl⟩, -⟩
      · rfl
      · have hn : between '\n' = false := h.resolve_left nofun
        cases comment
        · rw [List.nil_append, gap, gap]
          · simp [hn, isBlank]
          · exact fun _ hx => absurd hx (by decide)
        · rw [List.nil_append, gap, gap, if_pos rfl, hn]
          rfl
  | case2 r hb ih =>
    rw [gap, if_pos rfl, if_pos hb, List.length_cons] at h
    rw [List.cons_append, gap, gap, if_pos rfl, if_pos hb, if_pos rfl, if_pos hb]
    rw [ih hcs.of_cons (h.imp_left (by omega))]
  | case3 r hb => rw [List.cons_append, gap, gap, if_pos rfl, if_neg hb, if_pos rfl, if_neg hb]
  | case4 x r hx ih =>
    rw [gap, if_neg hx, List.length_cons] at h
    rw [List.cons_append, gap, gap, if_neg hx, if_neg hx, ih hcs.of_cons (h.imp_left (by omega))]
  | case5 r ih =>
    rw [gap, List.length_cons, List.length_cons] at h
    rw [List.cons_append, List.cons_append, gap, gap, ih hcs.of_cons.of_cons (h.imp_left (by omega))]
  | case6 r hx ih =>
    rw [gap_cons hx, if_pos rfl, List.length_cons] at h
    rw [List.cons_append, gap_cons (hcs.no_continuation hx), gap_cons hx, if_pos rfl, if_pos rfl,
      ih hcs.of_cons (h.imp_left (by omega))]
  | case7 x r hx hsharp hskip ih =>
    rw [gap_cons hx, if_neg hsharp, if_pos hskip, List.length_cons] at h
    rw [List.cons_append, gap_cons (hcs.no_continuation hx), gap_cons hx, if_neg hsharp, if_pos hskip,
      if_neg hsharp, if_pos hskip, ih hcs.of_cons (h.imp_left (by omega))]
  | case8 x r hx hsharp hskip =>
    rw [List.cons_append, gap_cons (hcs.no_continuation hx), gap_cons hx, if_neg hsharp, if_neg hskip,
      if_neg hsharp, if_neg hskip]

/-- A gap that lasts to the end of a text goes on over the newline after it. -/
theorem gap_append_newline {between : Char → Bool} {comment : Bool} {cs b : List Char}
    (hb : between '\n' = true) (hcs : Closed ('\n' :: b) cs) (h : gap between comment cs = cs.length) :
    gap between comment (cs ++ '\n' :: b) = cs.length + (1 + gap between false b) := by
  induction comment, cs using gap.induct between with
  | case1 comment =>
    rw [List.nil_append, List.length_nil, Nat.zero_add]
    cases comment
    · rw [gap_cons (by simp), if_neg (by decide), if_pos (by simp [hb])]
    · rw [gap, if_pos rfl, if_pos hb]
  | case2 r hn ih =>
    rw [gap, if_pos rfl, if_pos hn, List.length_cons] at h
    rw [List.cons_append, gap, if_pos rfl, if_pos hn, ih hcs.of_cons (by omega), List.length_cons]
    omega
  | case3 r hn => exact absurd hb hn
  | case4 x r hx ih =>
    rw [gap, if_neg hx, List.length_cons] at h
    rw [List.cons_append, gap, if_neg hx, ih hcs.of_cons (by omega), List.length_cons]
    omega
  | case5 r ih =>
    rw [gap, List.length_cons, List.length_cons] at h
    rw [List.cons_append, List.cons_append, gap, ih hcs.of_cons.of_cons (by omega), List.length_cons,
      List.length_cons]
    omega
  | case6 r hx ih =>
    rw [gap_cons hx, if_pos rfl, List.length_cons] at h
    rw [List.cons_append, gap_cons (hcs.no_continuation hx), if_pos rfl, ih hcs.of_cons (by omega),
      List.length_cons]
    omega
  | case7 x r hx hsharp hskip ih =>
    rw [gap_cons hx, if_neg hsharp, if_pos hskip, List.length_cons] at h
    rw [List.cons_append, gap_cons (hcs.no_continuation hx), if_neg hsharp, if_pos hskip,
      ih hcs.of_cons (by omega), List.length_cons]
    omega
  | case8 x r hx hsharp hskip =>
    rw [gap_cons hx, if_neg hsharp, if_neg hskip, List.length_cons] at h
    omega

theorem gap_le (between : Char → Bool) (comment : Bool) (cs : List Char) :
    gap between comment cs ≤ cs.length := by
  induction comment, cs using gap.induct between with
  | case1 comment => rw [gap]; exact Nat.zero_le _
  | case2 r hb ih => rw [gap, if_pos rfl, if_pos hb, List.length_cons]; omega
  | case3 r hb => rw [gap, if_pos rfl, if_neg hb]; exact Nat.zero_le _
  | case4 x r hx ih => rw [gap, if_neg hx, List.length_cons]; omega
  | case5 r ih => rw [gap, List.length_cons, List.length_cons]; omega
  | case6 r hx ih => rw [gap_cons hx, if_pos rfl, List.length_cons]; omega
  | case7 x r hx hsharp hskip ih => rw [gap_cons hx, if_neg hsharp, if_pos hskip, List.length_cons]; omega
  | case8 x r hx hsharp hskip => rw [gap_cons hx, if_neg hsharp, if_neg hskip]; exact Nat.zero_le _

theorem rest_moved (n : Nat) (tail : List Char) (c : Cursor) : (c.moved n tail).rest = c.rest ++ tail := rfl

theorem moved_nil (n : Nat) (c : Cursor) : c.moved n [] = ⟨c.rest, c.line + n, c.column⟩ := by
  rw [moved, List.append_nil]

theorem step_moved {x : Char} {r : List Char} (h : c.rest = x :: r) :
    (c.moved n tail).step = c.step.moved n tail := by
  obtain ⟨rest, line, column⟩ := c
  obtain rfl : rest = x :: r := h
  by_cases hx : x = '\n'
  · subst hx
    simp only [moved, step, List.cons_append, Nat.add_right_comm]
  · have hstep (r : List Char) (line : Nat) :
        (⟨x :: r, line, column⟩ : Cursor).step = ⟨r, line, column + 1⟩ := by
      unfold step
      split <;> rename_i heq <;> cases heq
      · exact absurd rfl hx
      · rfl
    rw [hstep, moved, moved, List.cons_append, hstep]

theorem advance_moved {k : Nat} (hk : k ≤ c.size) :
    (c.moved n tail).advance k = (c.advance k).moved n tail := by
  induction k generalizing c with
  | zero => rfl
  | succ k ih =>
    cases h : c.rest with
    | nil =>
      rw [size, h] at hk
      cases hk
    | cons x r =>
      have hsize := size_step h
      rw [advance, step_moved h, ih (by omega), advance]

theorem skip_moved {between : Char → Bool} (hc : c.ClosedBy tail)
    (h : (c.advance (gap between false c.rest)).rest ≠ [] ∨ tail = [] ∨ between '\n' = false) :
    (c.moved n tail).advance (gap between false (c.moved n tail).rest) =
      (c.advance (gap between false c.rest)).moved n tail := by
  rw [rest_moved, gap_append hc, advance_moved (gap_le _ _ _)]
  refine h.imp_left fun hrest => ?_
  rw [rest_advance, Ne, List.drop_eq_nil_iff] at hrest
  omega

theorem skipBlanks_moved (hc : c.ClosedBy tail) :
    (c.moved n tail).skipBlanks = c.skipBlanks.moved n tail := skip_moved hc (.inr (.inr rfl))

theorem skipLinebreaks_moved (hc : c.ClosedBy tail) (h : tail = [] ∨ c.skipLinebreaks.rest ≠ []) :
    (c.moved n tail).skipLinebreaks = c.skipLinebreaks.moved n tail :=
  skip_moved hc (h.elim (.inr ∘ .inl) .inl)

theorem skipSeparators_moved (hc : c.ClosedBy tail) (h : tail = [] ∨ c.skipSeparators.rest ≠ []) :
    (c.moved n tail).skipSeparators = c.skipSeparators.moved n tail :=
  skip_moved hc (h.elim (.inr ∘ .inl) .inl)

/-- Where nothing but separators is left of a text, those of the next line are passed with them. -/
theorem skipSeparators_newline {b : List Char} (hc : c.ClosedBy ('\n' :: b)) (h : c.skipSeparators.rest = []) :
    (c.moved n ('\n' :: b)).skipSeparators =
      (⟨b, c.line + c.rest.count '\n' + n + 1, 1⟩ : Cursor).skipSeparators := by
  have hend : gap (fun x => x == '\n' || x == ';') false c.rest = c.rest.length := by
    rw [skipSeparators, rest_advance, List.drop_eq_nil_iff] at h
    exact Nat.le_antisymm (gap_le _ _ _) h
  have hline := (Within.refl c).skipSeparators.line_eq
  rw [h, List.count_nil, Nat.add_zero] at hline
  have hsep : c.skipSeparators = c.advance c.rest.length := by rw [skipSeparators, hend]
  have hplace : (c.moved n ('\n' :: b)).advance c.rest.length =
      ⟨'\n' :: b, c.line + c.rest.count '\n' + n, (c.advance c.rest.length).column⟩ := by
    rw [hsep] at h hline
    rw [← hline]
    refine (advance_moved (Nat.le_refl c.size)).trans ?_
    rw [size, moved, h]
    rfl
  rw [skipSeparators, rest_moved, gap_append_newline rfl hc hend, advance_add, hplace, advance_add]
  rfl

theorem takeWhile_closed {p : Char → Bool} {cs : List Char} (hcs : Closed tail cs)
    (h : cs.dropWhile p ≠ [] ∨ tail = [] ∨ p '\n' = false) :
    (cs ++ tail).takeWhile p = cs.takeWhile p := by
  induction cs with
  | nil =>
    rcases h with h | h
    · exact absurd rfl h
    · rcases hcs with rfl | ⟨⟨b, rfl⟩, -⟩
      · rfl
      · rw [List.nil_append, List.takeWhile_cons, h.resolve_left nofun]
        rfl
  | cons x cs ih =>
    rw [List.cons_append, List.takeWhile_cons, List.takeWhile_cons]
    rw [List.dropWhile_cons] at h
    split
    · rename_i hx
      rw [if_pos hx] at h
      rw [ih hcs.of_cons h]
    · rfl

theorem skipWhile_moved {p : Char → Bool} (hc : c.ClosedBy tail)
    (h : (c.skipWhile p).rest ≠ [] ∨ tail = [] ∨ p '\n' = false) :
    (c.moved n tail).skipWhile p = (c.skipWhile p).moved n tail := by
  rw [rest_skipWhile] at h
  rw [skipWhile, rest_moved, takeWhile_closed hc h, advance_moved (List.takeWhile_sublist _).length_le, skipWhile]

/-- What ends a word is followed by nothing of it, be it the end of the text or a newline. -/
theorem atLone_moved (hc : c.ClosedBy tail) {x : Char} (hx : x ≠ '\n') :
    (c.moved n tail).atLone x = c.atLone x := by
  unfold atLone
  rw [rest_moved]
  rcases hc with rfl | ⟨⟨b, rfl⟩, -⟩
  · rw [List.append_nil]
  · rcases c.rest with _ | ⟨y, _ | ⟨z, r⟩⟩
    · rw [List.nil_append]
      split <;> rename_i heq <;> cases heq <;> simp [Ne.symm hx]
    · simp [isMeta]
    · rfl

/-- A text of one line is at a place or not, whatever follows after a newline. -/
theorem isPrefixOf_moved (hc : c.ClosedBy tail) {cs : List Char} (h : '\n' ∉ cs) :
    cs.isPrefixOf (c.moved n tail).rest = cs.isPrefixOf c.rest := by
  rw [rest_moved]
  rcases hc with rfl | ⟨⟨b, rfl⟩, -⟩
  · rw [List.append_nil]
  · generalize c.rest = r
    induction cs generalizing r with
    | nil => rfl
    | cons x cs ih =>
      cases r with
      | nil =>
        have hx : (x == '\n') = false := beq_false_of_ne fun hx => h (hx ▸ List.mem_cons_self)
        exact (congrArg (· && cs.isPrefixOf b) hx).trans (Bool.false_and _)
      | cons y r =>
        rw [List.cons_append, List.isPrefixOf, List.isPrefixOf, ih fun hn => h (List.mem_cons_of_mem _ hn)]

end Cursor
end Taskwork.Shell
