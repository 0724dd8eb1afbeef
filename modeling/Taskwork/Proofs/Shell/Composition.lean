/-
Reading is compositional over newlines. Every function of the parser looks one or two characters
ahead, and in each of those places the end of the text counts like a newline. So what a function reads
in a text it reads again when that text is a part of a longer one (`Moves`); the statements of a text
are followed by those of the next line, and only their lines change.
-/
import Taskwork.Proofs.Shell.Lines

namespace Taskwork.Shell

/-! ## What is read further down -/

/-- What readers answer with: how it looks when `n` lines come before the text and `tail` after it,
and the places it holds, which are all in the text. -/
class Placed (α : Type) where
  moved : Nat → List Char → α → α
  within : Cursor → α → Prop

instance : Placed Cursor := ⟨Cursor.moved, Cursor.Within⟩
instance : Placed String := ⟨fun _ _ text => text, fun _ _ => True⟩
instance : Placed (Nat × RedirectKind) := ⟨fun _ _ operator => operator, fun _ _ => True⟩
instance : Placed Part := ⟨fun n _ => Lines.part n, fun _ _ => True⟩
instance : Placed Word := ⟨fun n _ => Lines.word n, fun _ _ => True⟩
instance : Placed Redirect := ⟨fun n _ => Lines.redirect n, fun _ _ => True⟩
instance : Placed (List Redirect) := ⟨fun n _ => Lines.redirects n, fun _ _ => True⟩
instance : Placed Command := ⟨fun n _ => Lines.command n, fun _ _ => True⟩
instance : Placed (List Command) := ⟨fun n _ => Lines.commands n, fun _ _ => True⟩
instance : Placed Pipeline := ⟨fun n _ => Lines.pipeline n, fun _ _ => True⟩
instance : Placed (List Link) := ⟨fun n _ => Lines.links n, fun _ _ => True⟩
instance : Placed Script := ⟨fun n _ => Lines.statements n, fun _ _ => True⟩
instance : Placed (List Assign) := ⟨fun n _ => Lines.assigns n, fun _ _ => True⟩
instance : Placed (List Word) := ⟨fun n _ => Lines.words n, fun _ _ => True⟩

instance : Placed Parser.Item where
  moved n _
    | .assign a => .assign (Lines.assign n a)
    | .word w => .word (Lines.word n w)
    | .redirect r => .redirect (Lines.redirect n r)
  within _ _ := True

instance {α β : Type} [Placed α] [Placed β] : Placed (α × β) where
  moved n tail p := (Placed.moved n tail p.1, Placed.moved n tail p.2)
  within o p := Placed.within o p.1 ∧ Placed.within o p.2

instance {α : Type} [Placed α] : Placed (Option α) where
  moved n tail := Option.map (Placed.moved n tail)
  within o p := ∀ a ∈ p, Placed.within o a

namespace Parser

variable {n : Nat} {tail : List Char} {o c : Cursor} {α β : Type}

section Moves

variable [Placed α] [Placed β]

/-- What a reader answers in the text that starts at `o`, and in the same text further down and
followed by `tail`: what it reads there it reads here too, if `P` holds of it, and without a tail it
fails here as there. -/
def MovesIf (n : Nat) (tail : List Char) (o : Cursor) (P : α → Prop) (x y : Except SyntaxError α) : Prop :=
  match x with
  | .ok a => Placed.within o a ∧ (P a → y = .ok (Placed.moved n tail a))
  | .error e => tail = [] → y = .error (Lines.fault n e)

/-- The same for whatever is read. -/
def Moves (n : Nat) (tail : List Char) (o : Cursor) (x y : Except SyntaxError α) : Prop :=
  MovesIf n tail o (fun _ => True) x y

variable {P : α → Prop} {Q : β → Prop} {x y : Except SyntaxError α}

theorem MovesIf.ok {a : α} (h : Placed.within o a) (hy : P a → y = .ok (Placed.moved n tail a)) :
    MovesIf n tail o P (.ok a) y := ⟨h, hy⟩

theorem MovesIf.fail {s : Cursor} {f : SyntaxFault} (hy : tail = [] → y = Parser.fail (s.moved n tail) f) :
    MovesIf n tail o P (Parser.fail s f) y := hy

theorem MovesIf.mono {P' : α → Prop} (h : MovesIf n tail o P x y) (hP : ∀ a, P' a → P a) :
    MovesIf n tail o P' x y := by
  cases x with
  | error e => exact h
  | ok a => exact ⟨h.1, fun ha => h.2 (hP a ha)⟩

theorem Moves.bind {f g : α → Except SyntaxError β} (h : Moves n tail o x y)
    (hf : ∀ a, x = .ok a → Placed.within o a → MovesIf n tail o Q (f a) (g (Placed.moved n tail a))) :
    MovesIf n tail o Q (x >>= f) (y >>= g) := by
  cases x with
  | error e => exact fun ht => by rw [h ht]; rfl
  | ok a =>
    rw [h.2 trivial]
    exact hf a rfl h.1

/-- Something is made of what is read, and nothing more is read. -/
theorem MovesIf.finish {f g : α → Except SyntaxError β} (h : MovesIf n tail o P x y)
    (hf : ∀ a, Placed.within o a →
      ∃ b, f a = .ok b ∧ Placed.within o b ∧
        (Q b → P a ∧ g (Placed.moved n tail a) = .ok (Placed.moved n tail b))) :
    MovesIf n tail o Q (x >>= f) (y >>= g) := by
  cases x with
  | error e => exact fun ht => by rw [h ht]; rfl
  | ok a =>
    obtain ⟨b, hb, hw, hy⟩ := hf a h.1
    show MovesIf n tail o Q (f a) _
    rw [hb]
    refine ⟨hw, fun hq => ?_⟩
    rw [h.2 (hy hq).1]
    exact (hy hq).2

theorem MovesIf.bind_all {f g : α → Except SyntaxError β} (h : MovesIf n tail o P x y) (hP : ∀ a, P a)
    (hf : ∀ a, x = .ok a → Placed.within o a → MovesIf n tail o Q (f a) (g (Placed.moved n tail a))) :
    MovesIf n tail o Q (x >>= f) (y >>= g) :=
  Moves.bind (h.mono fun a _ => hP a) hf

/-- What comes after something that moves only if `P` holds of it fails when that does not hold. -/
theorem MovesIf.bind {f g : α → Except SyntaxError β} (h : MovesIf n tail o P x y)
    (hf : ∀ a, x = .ok a → Placed.within o a → P a → MovesIf n tail o Q (f a) (g (Placed.moved n tail a)))
    (hfail : ∀ a, ¬ P a → tail ≠ [] ∧ ∃ e, f a = .error e) : MovesIf n tail o Q (x >>= f) (y >>= g) := by
  cases x with
  | error e => exact fun ht => by rw [h ht]; rfl
  | ok a =>
    by_cases ha : P a
    · rw [h.2 ha]
      exact hf a rfl h.1 ha
    · obtain ⟨ht, e, he⟩ := hfail a ha
      show MovesIf n tail o Q (f a) _
      rw [he]
      exact fun hnil => absurd hnil ht

end Moves

/-! ## Sizes -/

theorem le_of_seen {r : Except SyntaxError (Reached c α)} {a : α} {e : Cursor} (h : seen r = .ok (a, e)) :
    e.size ≤ c.size := by
  cases r with
  | error f => cases h
  | ok p => cases h; exact p.le

theorem lt_of_passed {r : Except SyntaxError (Passed c α)} {a : α} {e : Cursor} (h : passed r = .ok (a, e)) :
    e.size < c.size := by
  cases r with
  | error f => cases h
  | ok p => cases h; exact p.lt

theorem lt_of_passed? {r : Except SyntaxError (Option (Passed c α))} {a : α} {e : Cursor}
    (h : passed? r = .ok (some (a, e))) : e.size < c.size := by
  cases r with
  | error f => cases h
  | ok p =>
    cases p with
    | none => cases h
    | some q => cases h; exact q.lt

theorem lt_of_found {r : Except SyntaxError (Reached c (Option (Passed c α)))} {a : α} {e s : Cursor}
    (h : found r = .ok (some (a, e), s)) : e.size < c.size := by
  cases r with
  | error f => cases h
  | ok p =>
    obtain ⟨_ | q, d, hd⟩ := p
    · cases h
    · cases h; exact q.lt

theorem size_step_of_pos (h : 1 ≤ c.size) : c.step.size + 1 = c.size := by
  cases hrest : c.rest with
  | nil =>
    rw [Cursor.size, hrest] at h
    cases h
  | cons x r => exact Cursor.size_step hrest

/-- What takes at least one character finds nothing at the end of a text. -/
theorem passed_at_end (r : Except SyntaxError (Passed c α)) (h : c.rest = []) : ∃ e, passed r = .error e := by
  cases r with
  | error f => exact ⟨f, rfl⟩
  | ok p =>
    have hlt := p.lt
    rw [show c.size = 0 by rw [Cursor.size, h]; rfl] at hlt
    cases hlt

/-! ## Looking ahead -/

theorem isEmpty_moved (h : tail = [] ∨ c.rest ≠ []) : (c.moved n tail).rest.isEmpty = c.rest.isEmpty := by
  rw [Cursor.rest_moved]
  rcases h with rfl | h
  · rw [List.append_nil]
  · cases hrest : c.rest with
    | nil => exact absurd hrest h
    | cons x r => rfl

/-- The next character, but for a newline, is the same with more text after a newline. -/
theorem head?_append {r : List Char} (hr : Cursor.Closed tail r) {x : Char} (hx : x ≠ '\n') :
    ((r ++ tail).head? == some x) = (r.head? == some x) := by
  rcases hr with rfl | ⟨⟨b, rfl⟩, -⟩
  · rw [List.append_nil]
  · cases r with
    | nil => simpa using hx.symm
    | cons y r => rfl

theorem endsCommand_append {x : Char} {r : List Char} (hr : Cursor.Closed tail r) :
    endsCommand x (r ++ tail) = endsCommand x r := by
  unfold endsCommand
  simp only [bne, head?_append hr (show '>' ≠ '\n' by decide)]

theorem endsStatement_append {closer : Closer} {r : List Char} (hr : Cursor.Closed tail r) :
    endsStatement closer (r ++ tail) = endsStatement closer r := by
  rcases hr with rfl | ⟨⟨b, rfl⟩, -⟩
  · rw [List.append_nil]
  · cases r <;> rfl

theorem holdsAt_moved {closer : Closer} (hc : c.ClosedBy tail) (h : closer = .endOfText → tail = []) :
    closer.holdsAt (c.moved n tail) = closer.holdsAt c := by
  cases closer with
  | endOfText => rw [h rfl, Cursor.moved_nil]; rfl
  | paren => exact head?_append hc (by decide)
  | brace => exact Cursor.atLone_moved hc (by decide)

theorem atPipe_eq (c : Cursor) :
    atPipe c = if ['|', '|'].isPrefixOf c.rest then false else ['|'].isPrefixOf c.rest := by
  unfold atPipe
  split <;> rename_i h
  · rw [h]
    rfl
  · rename_i hor
    rw [if_neg (not_isPrefixOf fun r' hr => hor r' (List.cons.inj (h ▸ hr)).2), h]
    rfl
  · rename_i hpipe
    rw [if_neg (not_isPrefixOf hpipe), Bool.eq_false_iff.2 (not_isPrefixOf h)]

theorem connector?_eq (c : Cursor) :
    connector? c = if ['&', '&'].isPrefixOf c.rest then some .and
      else if ['|', '|'].isPrefixOf c.rest then some .or else none := by
  unfold connector?
  split <;> rename_i h
  · rw [h]
    rfl
  · rw [h]
    rfl
  · rename_i hand
    rw [if_neg (not_isPrefixOf hand), if_neg (not_isPrefixOf h)]

theorem atPipe_moved (hc : c.ClosedBy tail) : atPipe (c.moved n tail) = atPipe c := by
  rw [atPipe_eq, atPipe_eq, Cursor.isPrefixOf_moved hc (by decide), Cursor.isPrefixOf_moved hc (by decide)]

theorem connector?_moved (hc : c.ClosedBy tail) : connector? (c.moved n tail) = connector? c := by
  rw [connector?_eq, connector?_eq, Cursor.isPrefixOf_moved hc (by decide),
    Cursor.isPrefixOf_moved hc (by decide)]

theorem le_of_isPrefixOf {cs : List Char} (h : cs.isPrefixOf c.rest = true) : cs.length ≤ c.size :=
  (List.isPrefixOf_iff_prefix.1 h).length_le

theorem one_le_of_atPipe (h : atPipe c = true) : 1 ≤ c.size := by
  rw [atPipe_eq] at h
  split at h
  · cases h
  · exact le_of_isPrefixOf h

/-- An operator between pipelines takes two characters. -/
theorem two_le_of_connector {k : Connector} (h : connector? c = some k) : 2 ≤ c.size := by
  rw [connector?_eq] at h
  split at h <;> rename_i hand
  · exact le_of_isPrefixOf hand
  · split at h <;> rename_i hor
    · exact le_of_isPrefixOf hor
    · cases h

theorem one_le_of_atLone {x : Char} (h : c.atLone x = true) : 1 ≤ c.size := by
  unfold Cursor.atLone at h
  unfold Cursor.size
  split at h <;> rename_i hrest
  · rw [hrest]; exact Nat.le_add_left ..
  · rw [hrest]; exact Nat.le_add_left ..
  · cases h

/-! ## Readers that read no script -/

theorem moves_operatorAfter {digits : List Char} (hc : c.ClosedBy tail) (h : o.Within c) :
    Moves n tail o (operatorAfter digits c c.rest)
      (operatorAfter digits (c.moved n tail) (c.moved n tail).rest) := by
  have hread (k : Nat) (hk : k ≤ c.size) (a : Nat × RedirectKind) :
      Moves n tail o (.ok (some (a, c.advance k))) (.ok (some (a, (c.moved n tail).advance k))) := by
    refine MovesIf.ok (fun p hp => ?_) fun _ => ?_
    · cases hp
      exact ⟨trivial, h.advance k⟩
    · rw [Cursor.advance_moved hk]
      rfl
  have hfail (k : Nat) (hk : k ≤ c.size) (f : SyntaxFault) :
      Moves n tail o (α := Option ((Nat × RedirectKind) × Cursor)) (fail (c.advance k) f)
        (fail ((c.moved n tail).advance k) f) :=
    MovesIf.fail fun _ => by rw [Cursor.advance_moved hk]
  have hnone : Moves n tail o (α := Option ((Nat × RedirectKind) × Cursor)) (.ok none) (.ok none) :=
    MovesIf.ok nofun fun _ => rfl
  have hahead (cs : List Char) (hcs : '\n' ∉ cs) := Cursor.isPrefixOf_moved (n := n) hc hcs
  unfold operatorAfter
  rw [hahead ['&', '>'] (by decide), hahead ['&', '>', '>'] (by decide),
    hahead ['>'] (by decide), hahead ['>', '>'] (by decide),
    hahead ['>', '&'] (by decide), hahead ['>', '|'] (by decide),
    hahead ['<'] (by decide), hahead ['<', '<'] (by decide),
    hahead ['<', '&'] (by decide)]
  generalize (if digits.isEmpty then some 1 else descriptor? digits) = output
  generalize (if digits.isEmpty then some 0 else descriptor? digits) = input
  by_cases hboth : ['&', '>'].isPrefixOf c.rest
  · rw [if_pos hboth, if_pos hboth]
    split_ifs
    · exact hnone
    · exact hfail 2 (le_of_isPrefixOf hboth) _
    · exact hread 2 (le_of_isPrefixOf hboth) _
  rw [if_neg hboth, if_neg hboth]
  by_cases hwrite : ['>'].isPrefixOf c.rest
  · rw [if_pos hwrite, if_pos hwrite]
    cases output with
    | none => exact hfail 0 (Nat.zero_le _) _
    | some fd =>
      dsimp only
      split_ifs with h₁ h₂ h₃
      · exact hread 2 (le_of_isPrefixOf h₁) _
      · exact hread 2 (le_of_isPrefixOf h₂) _
      · exact hread 2 (le_of_isPrefixOf h₃) _
      · exact hread 1 (le_of_isPrefixOf hwrite) _
  rw [if_neg hwrite, if_neg hwrite]
  by_cases hinput : ['<'].isPrefixOf c.rest
  · rw [if_pos hinput, if_pos hinput]
    cases input with
    | none => exact hfail 0 (Nat.zero_le _) _
    | some fd =>
      dsimp only
      split_ifs
      · exact hfail 1 (le_of_isPrefixOf hinput) _
      · exact hfail 1 (le_of_isPrefixOf hinput) _
      · exact hread 1 (le_of_isPrefixOf hinput) _
  rw [if_neg hinput, if_neg hinput]
  exact hnone

theorem moves_redirectOperator? (hc : c.ClosedBy tail) (h : o.Within c) :
    Moves n tail o (passed? (redirectOperator? c)) (passed? (redirectOperator? (c.moved n tail))) := by
  rw [passed?_redirectOperator, passed?_redirectOperator, Cursor.rest_moved,
    Cursor.takeWhile_closed hc (.inr (.inr (by decide))), Cursor.skipWhile_moved hc (.inr (.inr (by decide)))]
  exact moves_operatorAfter (hc.within ⟨_, rfl⟩) (h.skipWhile _)

theorem moves_singleQuoted (hc : c.ClosedBy tail) (h : o.Within c) {x : Char} {r : List Char}
    (hr : c.rest = x :: r) :
    Moves n tail o (passed (singleQuoted c)) (passed (singleQuoted (c.moved n tail))) := by
  have hs : c.step.ClosedBy tail := hc.within ⟨1, rfl⟩
  rw [passed_singleQuoted, passed_singleQuoted, Cursor.step_moved hr]
  split
  · rename_i hend
    refine MovesIf.fail fun ht => ?_
    subst ht
    rw [Cursor.skipWhile_moved hs (.inr (.inl rfl)), isEmpty_moved (.inl rfl), if_pos hend]
  · rename_i hend
    have hne : (c.step.skipWhile (· != '\'')).rest ≠ [] := fun h => hend (by rw [h]; rfl)
    refine MovesIf.ok ⟨trivial, (h.step.skipWhile _).step⟩ fun _ => ?_
    rw [Cursor.skipWhile_moved hs (.inl hne), isEmpty_moved (.inr hne), if_neg hend, Cursor.rest_moved,
      Cursor.takeWhile_closed hs (.inl (by rwa [← Cursor.rest_skipWhile]))]
    obtain ⟨y, r', hr'⟩ := List.exists_cons_of_ne_nil hne
    rw [Cursor.step_moved hr']
    rfl

theorem parameterName_moved (hc : c.ClosedBy tail) :
    ((parameterName (c.moved n tail)).value, (parameterName (c.moved n tail)).next) =
      ((parameterName c).value, (parameterName c).next.moved n tail) := by
  have hstart : (c.moved n tail).rest.head?.any Cursor.isNameStart = c.rest.head?.any Cursor.isNameStart := by
    rw [Cursor.rest_moved]
    rcases hc with rfl | ⟨⟨b, rfl⟩, -⟩
    · rw [List.append_nil]
    · cases c.rest with
      | nil => exact (by decide : Cursor.isNameStart '\n' = false)
      | cons x r => rfl
  have heq := parameterName_eq c
  rw [parameterName_eq, hstart, Cursor.rest_moved, head?_append hc (by decide),
    Cursor.takeWhile_closed hc (.inr (.inr (by decide))), Cursor.skipWhile_moved hc (.inr (.inr (by decide)))]
  split_ifs at heq ⊢ with hany hname
  · obtain ⟨hvalue, hnext⟩ := Prod.mk.inj heq
    have hsize : 1 ≤ c.size := by
      unfold Cursor.size
      cases hrest : c.rest with
      | nil => simp [hrest] at hany
      | cons x r => exact Nat.le_add_left ..
    rw [hvalue, hnext, ← Cursor.advance_one, Cursor.advance_moved hsize, Cursor.advance_one]
  · obtain ⟨hvalue, hnext⟩ := Prod.mk.inj heq
    rw [hvalue, hnext]
  · obtain ⟨hvalue, hnext⟩ := Prod.mk.inj heq
    rw [hvalue, hnext]

theorem parameterName_within (h : o.Within c) : o.Within (parameterName c).next := by
  have heq := congrArg Prod.snd (parameterName_eq c)
  split_ifs at heq <;> dsimp only at heq <;> rw [heq]
  · exact h.step
  · exact h.skipWhile _
  · exact h

theorem moves_itemOf {leading : Bool} {w : Word} :
    Moves n tail o (itemOf leading c w) (itemOf leading (c.moved n tail) (Lines.word n w)) := by
  cases leading with
  | false => exact MovesIf.ok trivial fun _ => rfl
  | true =>
    simp only [itemOf, if_true, Lines.assignment?_word, Lines.plain?_word]
    cases assignment? w with
    | some a => exact MovesIf.ok trivial fun _ => rfl
    | none =>
      cases Word.plain? w with
      | none => exact MovesIf.ok trivial fun _ => rfl
      | some text =>
        dsimp only [Option.map]
        split
        · exact MovesIf.fail fun _ => rfl
        · exact MovesIf.ok trivial fun _ => rfl

theorem afterBang_moved (hc : c.ClosedBy tail) : afterBang (c.moved n tail) = (afterBang c).moved n tail := by
  unfold afterBang
  rw [Cursor.atLone_moved hc (by decide)]
  split
  · rename_i h
    exact Cursor.advance_moved (one_le_of_atLone h)
  · rfl

theorem size_afterBang_le (c : Cursor) : (afterBang c).size ≤ c.size := by
  unfold afterBang
  split
  · exact c.size_step_le
  · exact Nat.le_refl _

theorem within_afterBang (h : o.Within c) : o.Within (afterBang c) := by
  unfold Parser.afterBang
  split
  · exact h.step
  · exact h

theorem upTo_moved {e : Cursor} : (c.moved n tail).upTo (e.moved n tail) = c.upTo e := by
  unfold Cursor.upTo
  rw [Cursor.rest_moved, Cursor.rest_moved, List.length_append, List.length_append, Nat.add_sub_add_right,
    List.take_append_of_le_length (Nat.sub_le ..)]

theorem onto_moved (i : Item) (parts : Parts) :
    (Placed.moved n tail i).onto (Placed.moved n tail parts) = Placed.moved n tail (i.onto parts) := by
  cases i <;> rfl

theorem isWord_moved (i : Item) : (Placed.moved n tail i matches .word _) = (i matches .word _) := by
  cases i <;> rfl

/-- What an operator is followed by. It may be on a later line, but not beyond the end of the text. -/
theorem MovesIf.past_linebreaks [Placed β] {Q : β → Prop} {r : ∀ c, Except SyntaxError (Passed c α)}
    {f g : α × Cursor → Except SyntaxError β} (hc : c.ClosedBy tail)
    (h : MovesIf n tail o Q (passed (r c.skipLinebreaks) >>= f)
      (passed (r (c.skipLinebreaks.moved n tail)) >>= g)) :
    MovesIf n tail o Q (passed (r c.skipLinebreaks) >>= f)
      (passed (r (c.moved n tail).skipLinebreaks) >>= g) := by
  by_cases hend : tail = [] ∨ c.skipLinebreaks.rest ≠ []
  · rwa [Cursor.skipLinebreaks_moved hc hend]
  · rw [not_or, Decidable.not_not] at hend
    obtain ⟨e, he⟩ := passed_at_end (r c.skipLinebreaks) hend.2
    rw [he]
    exact fun ht => absurd ht hend.1

/-- Statements are read up to their closer. -/
theorem holdsAt_of_seen {closer : Closer} {c e : Cursor} {script : Script}
    (h : seen (statements closer c) = .ok (script, e)) : closer.holdsAt e = true := by
  obtain ⟨hend, -, rfl⟩ | ⟨-, -, first, rest, d, more, hp, -, hmore, -⟩ := statements_cases h
  · exact hend
  · have := lt_of_passed hp
    have := c.size_skipSeparators_le
    have := d.size_skipBlanks_le
    exact holdsAt_of_seen hmore
termination_by c.size
decreasing_by all_goals omega

theorem one_le_of_closed {closer : Closer} (hcloser : closer ≠ .endOfText) {e : Cursor} {script : Script}
    (h : seen (statements closer c) = .ok (script, e)) : 1 ≤ e.size := by
  have hend := holdsAt_of_seen h
  cases closer with
  | endOfText => exact absurd rfl hcloser
  | paren =>
    unfold Cursor.size
    cases hrest : e.rest with
    | nil => simp [Closer.holdsAt, hrest] at hend
    | cons x r => exact Nat.le_add_left ..
  | brace => exact one_le_of_atLone hend

/-! ## The functions of the parser -/

/-- What a word is read up to is there with more text after it, unless it is the text of a default
that lasts to the end of the text: a newline would be a part of it. -/
def Ends (inDefault : Bool) (tail : List Char) (p : Word × Cursor) : Prop :=
  inDefault = false ∨ tail = [] ∨ p.2.rest ≠ []

mutual

theorem moves_statements (closer : Closer) {c : Cursor} (ho : o.ClosedBy tail)
    (hcloser : closer = .endOfText → tail = []) (h : o.Within c) :
    Moves n tail o (seen (statements closer c)) (seen (statements closer (c.moved n tail))) := by
  have := c.size_skipSeparators_le
  rw [seen_statements, seen_statements]
  by_cases hend : tail = [] ∨ c.skipSeparators.rest ≠ []
  · have hs : c.skipSeparators.ClosedBy tail := ho.within h.skipSeparators
    rw [Cursor.skipSeparators_moved (ho.within h) hend, holdsAt_moved hs hcloser, isEmpty_moved hend]
    split_ifs
    · exact MovesIf.ok ⟨trivial, h.skipSeparators⟩ fun _ => rfl
    · exact MovesIf.fail fun _ => rfl
    · refine (moves_andOr ho h.skipSeparators).bind ?_
      rintro ⟨⟨first, rest⟩, e⟩ hp ⟨-, he⟩
      have := lt_of_passed hp
      have := e.size_skipBlanks_le
      have he' : e.skipBlanks.ClosedBy tail := ho.within he.skipBlanks
      dsimp only [Placed.moved]
      rw [Cursor.skipBlanks_moved (ho.within he), Cursor.rest_moved, endsStatement_append he']
      cases hends : endsStatement closer e.skipBlanks.rest with
      | false =>
        refine MovesIf.fail fun ht => ?_
        rw [ht, List.append_nil]
        rfl
      | true =>
        refine (moves_statements closer ho hcloser he.skipBlanks).finish ?_
        rintro ⟨more, f⟩ ⟨-, hf⟩
        refine ⟨_, rfl, ⟨trivial, hf⟩, fun _ => ⟨trivial, ?_⟩⟩
        rw [upTo_moved]
        rfl
  · rw [not_or, Decidable.not_not] at hend
    have hnot : closer.holdsAt c.skipSeparators = false := by
      cases closer with
      | endOfText => exact absurd (hcloser rfl) hend.1
      | paren => simp [Closer.holdsAt, hend.2]
      | brace => simp [Closer.holdsAt, Cursor.atLone, hend.2]
    rw [hnot, hend.2]
    exact fun ht => absurd ht hend.1
termination_by 16 * c.size + 9
decreasing_by all_goals omega

theorem moves_andOr {c : Cursor} (ho : o.ClosedBy tail) (h : o.Within c) :
    Moves n tail o (passed (andOr c)) (passed (andOr (c.moved n tail))) := by
  rw [passed_andOr, passed_andOr]
  refine (moves_pipeline ho h).bind ?_
  rintro ⟨first, s⟩ hp ⟨-, hs⟩
  have := lt_of_passed hp
  refine (moves_links ho hs).finish ?_
  rintro ⟨rest, e⟩ ⟨-, he⟩
  exact ⟨_, rfl, ⟨⟨trivial, trivial⟩, he⟩, fun _ => ⟨trivial, rfl⟩⟩
termination_by 16 * c.size + 8
decreasing_by all_goals omega

theorem moves_links {c : Cursor} (ho : o.ClosedBy tail) (h : o.Within c) :
    Moves n tail o (seen (links c)) (seen (links (c.moved n tail))) := by
  have hs : c.skipBlanks.ClosedBy tail := ho.within h.skipBlanks
  rw [seen_links, seen_links, Cursor.skipBlanks_moved (ho.within h), connector?_moved hs]
  cases hk : connector? c.skipBlanks with
  | none => exact MovesIf.ok ⟨trivial, h.skipBlanks⟩ fun _ => rfl
  | some k =>
    dsimp only
    have hsize := two_le_of_connector hk
    have := c.size_skipBlanks_le
    have := size_step_of_pos (Nat.le_of_succ_le hsize)
    have := c.skipBlanks.step.size_step_le
    have := c.skipBlanks.step.step.size_skipLinebreaks_le
    have hstep : (c.skipBlanks.moved n tail).step.step = c.skipBlanks.step.step.moved n tail :=
      Cursor.advance_moved hsize
    rw [hstep]
    refine MovesIf.past_linebreaks (ho.within h.skipBlanks.step.step) ?_
    refine (moves_pipeline ho h.skipBlanks.step.step.skipLinebreaks).bind ?_
    rintro ⟨next, e⟩ hp ⟨-, he⟩
    have := lt_of_passed hp
    refine (moves_links ho he).finish ?_
    rintro ⟨more, f⟩ ⟨-, hf⟩
    exact ⟨_, rfl, ⟨trivial, hf⟩, fun _ => ⟨trivial, rfl⟩⟩
termination_by 16 * c.size + 8
decreasing_by all_goals omega

theorem moves_pipeline {c : Cursor} (ho : o.ClosedBy tail) (h : o.Within c) :
    Moves n tail o (passed (pipeline c)) (passed (pipeline (c.moved n tail))) := by
  have hs : c.skipBlanks.ClosedBy tail := ho.within h.skipBlanks
  rw [passed_pipeline, passed_pipeline, Cursor.skipBlanks_moved (ho.within h), afterBang_moved hs,
    Cursor.atLone_moved hs (by decide)]
  have := c.size_skipBlanks_le
  have := size_afterBang_le c.skipBlanks
  refine (moves_command ho (within_afterBang h.skipBlanks)).bind ?_
  rintro ⟨first, e⟩ hp ⟨-, he⟩
  have := lt_of_passed hp
  refine (moves_piped ho he).finish ?_
  rintro ⟨more, f⟩ ⟨-, hf⟩
  exact ⟨_, rfl, ⟨trivial, hf⟩, fun _ => ⟨trivial, rfl⟩⟩
termination_by 16 * c.size + 7
decreasing_by all_goals omega

theorem moves_piped {c : Cursor} (ho : o.ClosedBy tail) (h : o.Within c) :
    Moves n tail o (seen (piped c)) (seen (piped (c.moved n tail))) := by
  have hs : c.skipBlanks.ClosedBy tail := ho.within h.skipBlanks
  rw [seen_piped, seen_piped, Cursor.skipBlanks_moved (ho.within h), atPipe_moved hs]
  cases hk : atPipe c.skipBlanks with
  | false => exact MovesIf.ok ⟨trivial, h.skipBlanks⟩ fun _ => rfl
  | true =>
    rw [if_pos rfl, if_pos rfl]
    have hsize := one_le_of_atPipe hk
    have := c.size_skipBlanks_le
    have := size_step_of_pos hsize
    have := c.skipBlanks.step.size_skipLinebreaks_le
    have hstep : (c.skipBlanks.moved n tail).step = c.skipBlanks.step.moved n tail :=
      Cursor.advance_moved hsize
    rw [hstep]
    refine MovesIf.past_linebreaks (ho.within h.skipBlanks.step) ?_
    refine (moves_command ho h.skipBlanks.step.skipLinebreaks).bind ?_
    rintro ⟨next, e⟩ hp ⟨-, he⟩
    have := lt_of_passed hp
    refine (moves_piped ho he).finish ?_
    rintro ⟨more, f⟩ ⟨-, hf⟩
    exact ⟨_, rfl, ⟨trivial, hf⟩, fun _ => ⟨trivial, rfl⟩⟩
termination_by 16 * c.size + 7
decreasing_by all_goals omega

theorem moves_command {c : Cursor} (ho : o.ClosedBy tail) (h : o.Within c) :
    Moves n tail o (passed (command c)) (passed (command (c.moved n tail))) := by
  have hs : c.skipBlanks.ClosedBy tail := ho.within h.skipBlanks
  have hb := c.size_skipBlanks_le
  have hmoved := Cursor.skipBlanks_moved (n := n) (ho.within h)
  by_cases hparen : c.skipBlanks.rest.head? = some '('
  · obtain ⟨r, hr⟩ : ∃ r, c.skipBlanks.rest = '(' :: r := by
      cases hrest : c.skipBlanks.rest with
      | nil => simp [hrest] at hparen
      | cons x r =>
        rw [hrest, List.head?_cons, Option.some.injEq] at hparen
        exact ⟨r, by rw [hparen]⟩
    have := Cursor.size_step hr
    have hr' : (c.moved n tail).skipBlanks.rest = '(' :: (r ++ tail) := by rw [hmoved, Cursor.rest_moved, hr]; rfl
    rw [Cursor.ClosedBy, hr] at hs
    rw [passed_command_subshell hr, passed_command_subshell hr', hmoved,
      head?_append (Cursor.Closed.of_cons hs) (by decide), Cursor.step_moved hr]
    split_ifs
    · exact MovesIf.fail fun _ => rfl
    · refine (moves_statements .paren ho nofun h.skipBlanks.step).bind ?_
      rintro ⟨script, e⟩ hp ⟨-, he⟩
      have := le_of_seen hp
      have := e.size_step_le
      have hstep : (e.moved n tail).step = e.step.moved n tail :=
        Cursor.advance_moved (one_le_of_closed (by decide) hp)
      dsimp only [Placed.moved]
      rw [hstep]
      refine (moves_trailing ho he.step).finish ?_
      rintro ⟨redirects, f⟩ ⟨-, hf⟩
      exact ⟨_, rfl, ⟨trivial, hf⟩, fun _ => ⟨trivial, rfl⟩⟩
  by_cases hbrace : c.skipBlanks.atLone '\x7b' = true
  · have hone := one_le_of_atLone hbrace
    have := size_step_of_pos hone
    have hopen : (c.skipBlanks.moved n tail).step = c.skipBlanks.step.moved n tail := Cursor.advance_moved hone
    rw [passed_command_group hbrace, passed_command_group (by rwa [hmoved, Cursor.atLone_moved hs (by decide)]),
      hmoved, hopen]
    refine (moves_statements .brace ho nofun h.skipBlanks.step).bind ?_
    rintro ⟨script, e⟩ hp ⟨-, he⟩
    have := le_of_seen hp
    have := e.size_step_le
    have hstep : (e.moved n tail).step = e.step.moved n tail :=
      Cursor.advance_moved (one_le_of_closed (by decide) hp)
    dsimp only [Placed.moved]
    rw [hstep]
    refine (moves_trailing ho he.step).finish ?_
    rintro ⟨redirects, f⟩ ⟨-, hf⟩
    exact ⟨_, rfl, ⟨trivial, hf⟩, fun _ => ⟨trivial, rfl⟩⟩
  · rw [Bool.not_eq_true] at hbrace
    rw [passed_command_simple hparen hbrace, passed_command_simple, hmoved]
    · exact moves_simple ho h.skipBlanks
    · rw [hmoved]
      rwa [← beq_eq_false_iff_ne, Cursor.rest_moved, head?_append hs (by decide), beq_eq_false_iff_ne]
    · rw [hmoved, Cursor.atLone_moved hs (by decide), hbrace]
termination_by 16 * c.size + 6
decreasing_by all_goals omega

theorem moves_trailing {c : Cursor} (ho : o.ClosedBy tail) (h : o.Within c) :
    Moves n tail o (seen (trailing c)) (seen (trailing (c.moved n tail))) := by
  rw [seen_trailing, seen_trailing, Cursor.skipBlanks_moved (ho.within h)]
  have := c.size_skipBlanks_le
  refine (moves_redirect? ho h.skipBlanks).bind ?_
  rintro (_ | ⟨first, e⟩) hp hw
  · exact MovesIf.ok ⟨trivial, h.skipBlanks⟩ fun _ => rfl
  · have := lt_of_passed? hp
    refine (moves_trailing ho (hw _ rfl).2).finish ?_
    rintro ⟨more, f⟩ ⟨-, hf⟩
    exact ⟨_, rfl, ⟨trivial, hf⟩, fun _ => ⟨trivial, rfl⟩⟩
termination_by 16 * c.size + 6
decreasing_by all_goals omega

theorem moves_simple {c : Cursor} (ho : o.ClosedBy tail) (h : o.Within c) :
    Moves n tail o (passed (simple c)) (passed (simple (c.moved n tail))) := by
  rw [passed_simple, passed_simple]
  refine (moves_item? ho h).bind ?_
  rintro ⟨_ | ⟨i, e⟩, s⟩ hp ⟨hw, -⟩
  · exact MovesIf.fail fun _ => rfl
  · have := lt_of_found hp
    have he : o.Within e := (hw _ rfl).2
    clear hp hw
    have hitems : Moves n tail o (seen (items (i matches .word _) e))
        (seen (items (Placed.moved n tail i matches .word _) (e.moved n tail))) := by
      rw [isWord_moved]
      exact moves_items ho he
    refine hitems.finish ?_
    rintro ⟨parts, f⟩ ⟨-, hf⟩
    refine ⟨_, rfl, ⟨trivial, hf⟩, fun _ => ⟨trivial, ?_⟩⟩
    exact congrArg (fun all : Parts => Except.ok (Command.simple all.1 all.2.1 all.2.2, f.moved n tail))
      (onto_moved i parts)
termination_by 16 * c.size + 5
decreasing_by all_goals omega

theorem moves_items {named : Bool} {c : Cursor} (ho : o.ClosedBy tail) (h : o.Within c) :
    Moves n tail o (seen (items named c)) (seen (items named (c.moved n tail))) := by
  rw [seen_items, seen_items]
  refine (moves_item? ho h).bind ?_
  rintro ⟨_ | ⟨i, e⟩, s⟩ hp ⟨hw, hs⟩
  · exact MovesIf.ok ⟨⟨trivial, trivial, trivial⟩, hs⟩ fun _ => rfl
  · have := lt_of_found hp
    have he : o.Within e := (hw _ rfl).2
    clear hp hw hs
    have hitems : Moves n tail o (seen (items (named || i matches .word _) e))
        (seen (items (named || Placed.moved n tail i matches .word _) (e.moved n tail))) := by
      rw [isWord_moved]
      exact moves_items ho he
    refine hitems.finish ?_
    rintro ⟨parts, f⟩ ⟨-, hf⟩
    refine ⟨_, rfl, ⟨⟨trivial, trivial, trivial⟩, hf⟩, fun _ => ⟨trivial, ?_⟩⟩
    exact congrArg (fun all : Parts => Except.ok (all, f.moved n tail)) (onto_moved i parts)
termination_by 16 * c.size + 5
decreasing_by all_goals omega

theorem moves_item? {leading : Bool} {c : Cursor} (ho : o.ClosedBy tail) (h : o.Within c) :
    Moves n tail o (found (item? leading c)) (found (item? leading (c.moved n tail))) := by
  have hs : c.skipBlanks.ClosedBy tail := ho.within h.skipBlanks
  have := c.size_skipBlanks_le
  rw [found_item, found_item, Cursor.skipBlanks_moved (ho.within h)]
  cases hrest : c.skipBlanks.rest with
  | nil =>
    refine MovesIf.ok ⟨nofun, h.skipBlanks⟩ fun _ => ?_
    rw [Cursor.rest_moved, hrest, List.nil_append]
    rcases hs with rfl | ⟨⟨b, rfl⟩, -⟩
    · rfl
    · rfl
  | cons x r =>
    rw [Cursor.ClosedBy, hrest] at hs
    rw [Cursor.rest_moved, hrest, List.cons_append]
    dsimp only
    rw [endsCommand_append (Cursor.Closed.of_cons hs)]
    split_ifs
    · exact MovesIf.ok ⟨nofun, h.skipBlanks⟩ fun _ => rfl
    · exact MovesIf.fail fun _ => rfl
    · refine (moves_redirect? ho h.skipBlanks).bind ?_
      rintro (_ | ⟨redirect, e⟩) hp hw
      · refine (moves_piece ho h.skipBlanks).bind ?_
        rintro ⟨parts, e⟩ hp ⟨-, he⟩
        have := lt_of_passed hp
        refine (moves_word ho he).bind_all (fun _ => .inl rfl) ?_
        rintro ⟨more, f⟩ - ⟨-, hf⟩
        dsimp only [Placed.moved]
        rw [← Lines.word_foldr]
        refine moves_itemOf.finish ?_
        intro i _
        exact ⟨_, rfl, ⟨fun p hp => by cases hp; exact ⟨trivial, hf⟩, h.skipBlanks⟩, fun _ => ⟨trivial, rfl⟩⟩
      · exact MovesIf.ok ⟨fun p hp => by cases hp; exact ⟨trivial, (hw _ rfl).2⟩, h.skipBlanks⟩ fun _ => rfl
termination_by 16 * c.size + 4
decreasing_by all_goals omega

theorem moves_redirect? {c : Cursor} (ho : o.ClosedBy tail) (h : o.Within c) :
    Moves n tail o (passed? (redirect? c)) (passed? (redirect? (c.moved n tail))) := by
  rw [passed?_redirect, passed?_redirect]
  refine (moves_redirectOperator? (ho.within h) h).bind ?_
  rintro (_ | ⟨⟨fd, kind⟩, s⟩) hp hw
  · exact MovesIf.ok nofun fun _ => rfl
  · have := lt_of_passed? hp
    have := s.size_skipBlanks_le
    have hs : o.Within s := (hw _ rfl).2
    show MovesIf n tail o _ (seen (word false s.skipBlanks) >>= _)
      (seen (word false (s.moved n tail).skipBlanks) >>= _)
    rw [Cursor.skipBlanks_moved (ho.within hs)]
    refine (moves_word ho hs.skipBlanks).bind_all (fun _ => .inl rfl) ?_
    rintro ⟨target, e⟩ ht ⟨-, he⟩
    dsimp only [Placed.moved]
    rw [Lines.isEmpty_word, Lines.plain?_word, Cursor.skipBlanks_moved (ho.within hs)]
    split_ifs
    · exact MovesIf.fail fun _ => rfl
    · exact MovesIf.fail fun _ => rfl
    · exact MovesIf.ok (fun p hp => by cases hp; exact ⟨trivial, he⟩) fun _ => rfl
termination_by 16 * c.size + 3
decreasing_by all_goals omega

theorem moves_word {d : Bool} {c : Cursor} (ho : o.ClosedBy tail) (h : o.Within c) :
    MovesIf n tail o (Ends d tail) (seen (word d c)) (seen (word d (c.moved n tail))) := by
  cases hrest : c.rest with
  | nil =>
    rw [word_nil hrest]
    refine MovesIf.ok ⟨trivial, h⟩ fun hend => ?_
    rcases ho.within h with rfl | ⟨⟨b, rfl⟩, -⟩
    · rw [word_nil (by rw [Cursor.rest_moved, hrest]; rfl)]
      rfl
    · obtain rfl : d = false := by
        rcases hend with hd | ht | hne
        · exact hd
        · cases ht
        · exact absurd hrest hne
      rw [word_stop (by rw [Cursor.rest_moved, hrest]; rfl) (by decide)]
      rfl
  | cons x r =>
    have hrest' : (c.moved n tail).rest = x :: (r ++ tail) := by rw [Cursor.rest_moved, hrest]; rfl
    cases hx : continues d x with
    | false =>
      rw [word_stop hrest hx, word_stop hrest' hx]
      exact MovesIf.ok ⟨trivial, h⟩ fun _ => rfl
    | true =>
      rw [word_step hrest hx, word_step hrest' hx]
      refine (moves_piece ho h).bind ?_
      rintro ⟨parts, e⟩ hp ⟨-, he⟩
      have := lt_of_passed hp
      refine (moves_word ho he).finish ?_
      rintro ⟨more, f⟩ ⟨-, hf⟩
      refine ⟨_, rfl, ⟨trivial, hf⟩, fun hend => ⟨hend, ?_⟩⟩
      exact congrArg (fun w => Except.ok (w, f.moved n tail)) (Lines.word_foldr n parts more).symm
termination_by 16 * c.size + 2
decreasing_by all_goals omega

theorem moves_piece {c : Cursor} (ho : o.ClosedBy tail) (h : o.Within c) :
    Moves n tail o (passed (piece c)) (passed (piece (c.moved n tail))) := by
  have hc := ho.within h
  cases hrest : c.rest with
  | nil =>
    rw [piece_nil hrest]
    refine MovesIf.fail fun ht => ?_
    rw [piece_nil (by rw [Cursor.rest_moved, hrest, ht]; rfl)]
  | cons x r =>
    have hrest' : (c.moved n tail).rest = x :: (r ++ tail) := by rw [Cursor.rest_moved, hrest]; rfl
    have hone : (c.moved n tail).step = c.step.moved n tail := Cursor.step_moved hrest
    cases hx : isSpecial x with
    | false =>
      rw [piece_plain hrest hx, piece_plain hrest' hx, hone]
      exact MovesIf.ok ⟨trivial, h.step⟩ fun _ => rfl
    | true =>
      have := Cursor.size_step hrest
      simp only [isSpecial, Bool.or_eq_true, beq_iff_eq] at hx
      obtain (((rfl | rfl) | rfl) | rfl) | rfl := hx
      · cases r with
        | nil =>
          obtain rfl : tail = [] := by
            rcases hc with ht | ⟨-, hlast⟩
            · exact ht
            · rw [hrest] at hlast
              exact absurd rfl hlast
          rw [piece_backslash hrest, piece_backslash hrest', hone]
          exact MovesIf.ok ⟨trivial, h.step⟩ fun _ => rfl
        | cons y r =>
          have htwo : (c.moved n tail).step.step = c.step.step.moved n tail := by
            rw [hone, Cursor.step_moved (Cursor.rest_step hrest)]
          by_cases hy : y = '\n'
          · subst hy
            rw [piece_continuation hrest, piece_continuation hrest', htwo]
            exact MovesIf.ok ⟨trivial, h.step.step⟩ fun _ => rfl
          · rw [piece_escape hrest hy, piece_escape hrest' hy, htwo]
            exact MovesIf.ok ⟨trivial, h.step.step⟩ fun _ => rfl
      · rw [piece_single hrest, piece_single hrest']
        refine (moves_singleQuoted hc h hrest).finish ?_
        rintro ⟨text, e⟩ ⟨-, he⟩
        exact ⟨_, rfl, ⟨trivial, he⟩, fun _ => ⟨trivial, rfl⟩⟩
      · rw [piece_double hrest, piece_double hrest', hone]
        refine (moves_doubleQuoted ho h h.step).finish ?_
        rintro ⟨parts, e⟩ ⟨-, he⟩
        refine ⟨_, rfl, ⟨trivial, he⟩, fun _ => ⟨trivial, ?_⟩⟩
        exact congrArg (fun w => Except.ok (w, e.moved n tail)) (Lines.word_cons n (.literal "" true) parts).symm
      · rw [piece_dollar hrest, piece_dollar hrest']
        refine (moves_dollar ho h hrest).finish ?_
        rintro ⟨part, e⟩ ⟨-, he⟩
        exact ⟨_, rfl, ⟨trivial, he⟩, fun _ => ⟨trivial, rfl⟩⟩
      · rw [piece_backtick hrest, piece_backtick hrest']
        exact MovesIf.fail fun _ => rfl
termination_by 16 * c.size + 1
decreasing_by all_goals omega

theorem moves_doubleQuoted {start c : Cursor} (ho : o.ClosedBy tail) (hstart : o.Within start) (h : o.Within c) :
    Moves n tail o (seen (doubleQuoted start c))
      (seen (doubleQuoted (start.moved n tail) (c.moved n tail))) := by
  have hc := ho.within h
  cases hrest : c.rest with
  | nil =>
    rw [doubleQuoted_nil hrest]
    refine MovesIf.fail fun ht => ?_
    rw [doubleQuoted_nil (by rw [Cursor.rest_moved, hrest, ht]; rfl)]
  | cons x r =>
    have hrest' : (c.moved n tail).rest = x :: (r ++ tail) := by rw [Cursor.rest_moved, hrest]; rfl
    have hone : (c.moved n tail).step = c.step.moved n tail := Cursor.step_moved hrest
    have := Cursor.size_step hrest
    have hmore {d : Cursor} (hd : o.Within d) (hlt : d.size < c.size) (text : String) :
        Moves n tail o
          (do
            let (more, f) ← seen (doubleQuoted start d)
            return (Word.cons (.literal text true) more, f))
          (do
            let (more, f) ← seen (doubleQuoted (start.moved n tail) (d.moved n tail))
            return (Word.cons (.literal text true) more, f)) := by
      refine (moves_doubleQuoted ho hstart hd).finish ?_
      rintro ⟨more, f⟩ ⟨-, hf⟩
      refine ⟨_, rfl, ⟨trivial, hf⟩, fun _ => ⟨trivial, ?_⟩⟩
      exact congrArg (fun w => Except.ok (w, f.moved n tail)) (Lines.word_cons n (.literal text true) more).symm
    by_cases hclose : x = '"'
    · subst hclose
      rw [doubleQuoted_close hrest, doubleQuoted_close hrest', hone]
      exact MovesIf.ok ⟨trivial, h.step⟩ fun _ => rfl
    by_cases hdollar : x = '$'
    · subst hdollar
      rw [doubleQuoted_dollar hrest, doubleQuoted_dollar hrest']
      refine (moves_dollar ho h hrest).bind ?_
      rintro ⟨part, e⟩ hp ⟨-, he⟩
      have := lt_of_passed hp
      refine (moves_doubleQuoted ho hstart he).finish ?_
      rintro ⟨more, f⟩ ⟨-, hf⟩
      refine ⟨_, rfl, ⟨trivial, hf⟩, fun _ => ⟨trivial, ?_⟩⟩
      exact congrArg (fun w => Except.ok (w, f.moved n tail)) (Lines.word_cons n part more).symm
    by_cases hbacktick : x = '\x60'
    · subst hbacktick
      rw [doubleQuoted_backtick hrest, doubleQuoted_backtick hrest']
      exact MovesIf.fail fun _ => rfl
    by_cases hescape : x = '\\' ∧ r ≠ []
    · obtain ⟨rfl, hne⟩ := hescape
      obtain ⟨y, r, rfl⟩ := List.exists_cons_of_ne_nil hne
      have hrest₁ := Cursor.rest_step hrest
      have := Cursor.size_step hrest₁
      have htwo : (c.moved n tail).step.step = c.step.step.moved n tail := by
        rw [hone, Cursor.step_moved hrest₁]
      rw [doubleQuoted_escape hrest, doubleQuoted_escape hrest', htwo, hone]
      split_ifs
      · exact moves_doubleQuoted ho hstart h.step.step
      · exact hmore h.step.step (by omega) _
      · exact hmore h.step (by omega) _
    · have hr : x = '\\' → r = [] := fun hx => Decidable.not_not.1 fun hne => hescape ⟨hx, hne⟩
      have hr' : x = '\\' → r ++ tail = [] := by
        rintro rfl
        rcases hc with rfl | ⟨-, hlast⟩
        · rw [hr rfl]
          rfl
        · rw [hrest, hr rfl] at hlast
          exact absurd rfl hlast
      rw [doubleQuoted_plain hrest ⟨hclose, hdollar, hbacktick⟩ hr,
        doubleQuoted_plain hrest' ⟨hclose, hdollar, hbacktick⟩ hr', hone]
      exact hmore h.step (by omega) _
termination_by 16 * c.size + 1
decreasing_by all_goals omega

theorem moves_dollar {quoted : Bool} {c : Cursor} (ho : o.ClosedBy tail) (h : o.Within c) {y : Char} {r : List Char}
    (hrest : c.rest = y :: r) :
    Moves n tail o (passed (dollar quoted c)) (passed (dollar quoted (c.moved n tail))) := by
  have hrest' : (c.moved n tail).rest = y :: (r ++ tail) := by rw [Cursor.rest_moved, hrest]; rfl
  have hone : (c.moved n tail).step = c.step.moved n tail := Cursor.step_moved hrest
  have := Cursor.size_step hrest
  by_cases halone : ∀ x ∈ r.head?, x ≠ '\x7b' ∧ x ≠ '(' ∧ startsParameter x = false
  · rw [dollar_alone hrest halone, dollar_alone hrest', hone]
    · exact MovesIf.ok ⟨trivial, h.step⟩ fun _ => rfl
    · cases r with
      | cons x r => exact halone
      | nil =>
        rcases ho with rfl | ⟨⟨b, rfl⟩, -⟩
        · exact nofun
        · rintro x ⟨⟩
          decide
  cases r with
  | nil => exact absurd nofun halone
  | cons x r =>
    have hrest₁ := Cursor.rest_step hrest
    have := Cursor.size_step hrest₁
    have htwo : (c.moved n tail).step.step = c.step.step.moved n tail := by
      rw [hone, Cursor.step_moved hrest₁]
    rw [List.cons_append] at hrest'
    by_cases hbrace : x = '\x7b'
    · subst hbrace
      have hclosed := ho.within h.step.step
      obtain ⟨hvalue, hnext⟩ := Prod.mk.inj (parameterName_moved (n := n) hclosed)
      have hin := parameterName_within h.step.step
      have hle := (parameterName c.step.step).le
      rw [dollar_brace hrest, dollar_brace hrest', htwo, hvalue, hnext]
      generalize (parameterName c.step.step).value = name, (parameterName c.step.step).next = e at hin hle
      rw [Cursor.isPrefixOf_moved (ho.within hin) (by decide),
        Cursor.isPrefixOf_moved (ho.within hin) (by decide)]
      split_ifs with hname hclose hdefault
      · exact MovesIf.fail fun _ => rfl
      · refine MovesIf.ok ⟨trivial, hin.step⟩ fun _ => ?_
        rw [show (e.moved n tail).step = e.step.moved n tail from
          Cursor.advance_moved (le_of_isPrefixOf hclose)]
        rfl
      · have := e.size_step_le
        have := e.step.size_step_le
        rw [show (e.moved n tail).step.step = e.step.step.moved n tail from
          Cursor.advance_moved (k := 2) (le_of_isPrefixOf hdefault)]
        refine (moves_word (d := true) ho hin.step.step).bind ?_ ?_
        · rintro ⟨fallback, f⟩ - ⟨-, hf⟩ -
          dsimp only [Placed.moved]
          rw [Cursor.isPrefixOf_moved (ho.within hf) (by decide)]
          split_ifs with hend
          · refine MovesIf.ok ⟨trivial, hf.step⟩ fun _ => ?_
            rw [show (f.moved n tail).step = f.step.moved n tail from
              Cursor.advance_moved (le_of_isPrefixOf hend)]
            rfl
          · exact MovesIf.fail fun _ => rfl
        · rintro ⟨fallback, f⟩ hnot
          simp only [Ends, Bool.true_eq_false, false_or, not_or, Decidable.not_not] at hnot
          refine ⟨hnot.1, ?_⟩
          dsimp only
          rw [hnot.2, if_neg (by decide)]
          exact ⟨_, rfl⟩
      · exact MovesIf.fail fun _ => rfl
    by_cases hparen : x = '('
    · subst hparen
      have hr : Cursor.Closed tail r := by
        have := ho.within h
        rw [Cursor.ClosedBy, hrest] at this
        exact Cursor.Closed.of_cons (Cursor.Closed.of_cons this)
      rw [dollar_paren hrest, dollar_paren hrest', head?_append hr (by decide), htwo]
      split_ifs
      · exact MovesIf.fail fun _ => rfl
      · refine (moves_statements .paren ho nofun h.step.step).bind ?_
        rintro ⟨script, e⟩ hp ⟨-, he⟩
        refine MovesIf.ok ⟨trivial, he.step⟩ fun _ => ?_
        dsimp only [Placed.moved]
        rw [show (e.moved n tail).step = e.step.moved n tail from
          Cursor.advance_moved (one_le_of_closed (by decide) hp)]
        rfl
    · have hname : startsParameter x = true := by
        cases hx : startsParameter x with
        | true => rfl
        | false => exact absurd (fun y hy => by cases hy; exact ⟨hbrace, hparen, hx⟩) halone
      have hmoved := parameterName_moved (n := n) (ho.within h.step)
      rw [dollar_name hrest hname, dollar_name hrest' hname, hone, (Prod.mk.inj hmoved).1, (Prod.mk.inj hmoved).2]
      exact MovesIf.ok ⟨trivial, parameterName_within h.step⟩ fun _ => rfl
termination_by 16 * c.size
decreasing_by all_goals omega

end

/-! ## One text below another -/

theorem seen_statements_congr {closer : Closer} {c d : Cursor} (h : c.skipSeparators = d.skipSeparators) :
    seen (statements closer c) = seen (statements closer d) := by
  rw [seen_statements, seen_statements, h]

/-- The statements of a text, then those of the next line. The induction is on what is left of the
first text; at its end the newline is one more separator. -/
theorem seen_statements_newline {b : List Char} (ho : o.ClosedBy ('\n' :: b)) {c e : Cursor} {script : Script}
    (h : o.Within c) (hread : seen (statements .endOfText c) = .ok (script, e)) :
    seen (statements .endOfText (c.moved n ('\n' :: b))) =
      (seen (statements .endOfText ⟨b, c.line + c.rest.count '\n' + n + 1, 1⟩)).map fun (next, f) =>
        (Lines.statements n script ++ next, f) := by
  obtain ⟨hend, rfl, -⟩ | ⟨hstart, hne, first, rest, d, more, hp, hends, hmore, rfl⟩ := statements_cases hread
  · have hempty : c.skipSeparators.rest = [] := List.isEmpty_iff.1 hend
    rw [seen_statements_congr (Cursor.skipSeparators_newline (ho.within h) hempty)]
    cases seen (statements .endOfText ⟨b, c.line + c.rest.count '\n' + n + 1, 1⟩) <;> rfl
  · have := lt_of_passed hp
    have := c.size_skipSeparators_le
    have := d.size_skipBlanks_le
    have hmoved := moves_andOr (n := n) ho h.skipSeparators
    rw [hp] at hmoved
    have hd : o.Within d := hmoved.1.2
    have hskip := Cursor.skipSeparators_moved (n := n) (ho.within h) (.inr hne)
    have hblanks := Cursor.skipBlanks_moved (n := n) (ho.within hd)
    rw [seen_statements_cons (Lines.pipeline n first) (Lines.links n rest) (e := d.moved n ('\n' :: b))]
    · have hnext := seen_statements_newline ho hd.skipBlanks hmore
      rw [← h.line_eq.trans hd.skipBlanks.line_eq.symm] at hnext
      rw [hblanks, hnext, hskip, upTo_moved]
      cases seen (statements .endOfText ⟨b, c.line + c.rest.count '\n' + n + 1, 1⟩) <;> rfl
    · rw [hskip]
      exact (isEmpty_moved (.inr hne)).trans hstart
    · rw [hskip, Cursor.rest_moved]
      exact fun hnil => hne (List.append_eq_nil_iff.1 hnil).1
    · rw [hskip]
      exact hmoved.2 trivial
    · rw [hblanks, Cursor.rest_moved, endsStatement_append (ho.within hd.skipBlanks), hends]
termination_by c.size
decreasing_by all_goals omega

end Parser

theorem Script.ofString_eq (text : String) :
    Script.ofString text = (Parser.seen (Parser.statements .endOfText (.ofString text))).map (·.1) := by
  unfold Script.ofString Parser.seen
  cases Parser.statements .endOfText (.ofString text) <;> rfl

/-- A text that stands further down is read like the text alone. -/
theorem Script.ofString_moved (n : Nat) (text : String) :
    (Parser.seen (Parser.statements .endOfText ⟨text.toList, 1 + n, 1⟩)).map (·.1) =
      match Script.ofString text with
      | .ok script => .ok (Lines.statements n script)
      | .error e => .error (Lines.fault n e) := by
  have h := Parser.moves_statements (n := n) .endOfText (.inl (rfl : ([] : List Char) = [])) (fun _ => rfl)
    (Cursor.Within.refl (.ofString text))
  rw [Cursor.moved_nil] at h
  change Parser.Moves n [] _ _ (Parser.seen (Parser.statements .endOfText ⟨text.toList, 1 + n, 1⟩)) at h
  rw [Script.ofString_eq]
  cases hread : Parser.seen (Parser.statements .endOfText (.ofString text)) with
  | error e =>
    rw [hread] at h
    rw [h rfl]
    rfl
  | ok p =>
    rw [hread] at h
    rw [h.2 trivial]
    rfl

/-- **Reading is compositional over newlines.** When a text that does not end in a backslash is a
script, putting another text below it gives the statements of the first and then those of the second,
as many lines further down as the first has; and what is wrong with the second text alone is wrong in
both together, in the same column, as many lines further down. -/
theorem Script.ofString_append_newline {a b : String} {script : Script}
    (ha : Script.ofString a = .ok script) (hlast : a.toList.getLast? ≠ some '\\') :
    Script.ofString (a ++ "\n" ++ b) = match Script.ofString b with
      | .ok next => .ok (script ++ Lines.statements (a.toList.count '\n' + 1) next)
      | .error e => .error (Lines.fault (a.toList.count '\n' + 1) e) := by
  -- Zero lines further down what is read is what it is.
  have hzero : Lines.statements 0 script = script := by
    have h := Script.ofString_moved 0 a
    rw [ha, show (⟨a.toList, 1 + 0, 1⟩ : Cursor) = .ofString a from rfl, ← Script.ofString_eq, ha] at h
    exact (Except.ok.inj h).symm
  have hall : (Cursor.ofString a).moved 0 ('\n' :: b.toList) = .ofString (a ++ "\n" ++ b) := by
    simp [Cursor.moved, Cursor.ofString, String.toList_append]
  rw [Script.ofString_eq] at ha
  cases hread : Parser.seen (Parser.statements .endOfText (.ofString a)) with
  | error e =>
    rw [hread] at ha
    cases ha
  | ok p =>
    rw [hread] at ha
    obtain rfl : p.1 = script := Except.ok.inj ha
    have h := Parser.seen_statements_newline (n := 0) (b := b.toList) (.inr ⟨⟨_, rfl⟩, hlast⟩)
      (Cursor.Within.refl (.ofString a)) hread
    rw [hall, hzero, show (Cursor.ofString a).line + (Cursor.ofString a).rest.count '\n' + 0 + 1 =
      1 + (a.toList.count '\n' + 1) from Nat.add_assoc ..] at h
    have hb := Script.ofString_moved (a.toList.count '\n' + 1) b
    rw [Script.ofString_eq (a ++ "\n" ++ b), h]
    generalize Parser.seen (Parser.statements .endOfText ⟨b.toList, 1 + (a.toList.count '\n' + 1), 1⟩) = r at hb
    cases hnext : Script.ofString b with
    | error e =>
      rw [hnext] at hb
      cases r with
      | error f => exact congrArg Except.error (Except.error.inj hb)
      | ok q => cases hb
    | ok next =>
      rw [hnext] at hb
      cases r with
      | error f => cases hb
      | ok q => exact congrArg (fun t => Except.ok (p.1 ++ t)) (Except.ok.inj hb)

/-- A command below a comment and before a group that starts on its third line. -/
theorem Script.ofString_group_below :
    ∃ script next, Script.ofString "x # y\nz" = .ok script ∧ Script.ofString "\x7b y\n\x7d" = .ok next ∧
      Script.ofString "x # y\nz\n\x7b y\n\x7d" = .ok (script ++ Lines.statements 2 next) := by
  have ha : ∃ script, Script.ofString "x # y\nz" = .ok script := ⟨_, by with_unfolding_all rfl⟩
  have hb : ∃ script, Script.ofString "\x7b y\n\x7d" = .ok script := ⟨_, by with_unfolding_all rfl⟩
  obtain ⟨script, ha⟩ := ha
  obtain ⟨next, hb⟩ := hb
  have h := Script.ofString_append_newline (b := "\x7b y\n\x7d") ha (by decide)
  rw [hb] at h
  exact ⟨script, next, ha, hb, h⟩

end Taskwork.Shell
