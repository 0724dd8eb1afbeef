/-
What it is for a course to follow the parser. The running parser reads from a place, a course from a
position, and it follows the parser if it comes to the same outcome when the calls made in it are
answered as the parser answers them. It is shown of a course from its first call on; what it may rely
on is where the answer to a call ends, which is not before the call and not behind the text.
-/
import Taskwork.Proofs.Shell.Positions
import Taskwork.Proofs.Shell.Rounds

namespace Taskwork.Shell

open Taskwork.Shell.Parser

/-! ## What the parser answers -/

theorem Parser.MovesIf.within {α : Type} [Placed α] {n : Nat} {tail : List Char} {P : α → Prop} {o : Cursor}
    {x y : Except SyntaxError α} {a : α} (h : MovesIf n tail o P x y) (hx : x = .ok a) : Placed.within o a := by
  subst hx
  exact h.1

/-- What was read if anything was, and the place after it, which is where it started if nothing was. -/
def orStay {α : Type} (c : Cursor) (r : Except SyntaxError (Option (α × Cursor))) :
    Except SyntaxError (Option α × Cursor) :=
  r.map fun
    | none => (none, c)
    | some (a, e) => (some a, e)

theorem bind_eq_orStay {α β : Type} (c : Cursor) (r : Except SyntaxError (Option (α × Cursor)))
    (f : Option (α × Cursor) → Except SyntaxError β) :
    r >>= f = orStay c r >>= fun p => f (p.1.map fun a => (a, p.2)) := by
  obtain e | (_ | ⟨a, e⟩) := r <;> rfl

theorem orStay_bind {α β : Type} (c : Cursor) (r : Except SyntaxError α)
    (f : α → Except SyntaxError (Option (β × Cursor))) : orStay c (r >>= f) = r >>= fun a => orStay c (f a) := by
  cases r <;> rfl

theorem eq_of_orStay {α : Type} {c e : Cursor} {r : Except SyntaxError (Option (α × Cursor))} {o : Option α}
    (h : orStay c r = .ok (o, e)) : r = .ok (o.map fun a => (a, e)) ∧ (o = none → e = c) := by
  obtain e | (_ | ⟨a, e⟩) := r
  · cases h
  · cases h
    exact ⟨rfl, fun _ => rfl⟩
  · cases h
    exact ⟨rfl, fun hnone => by cases hnone⟩

theorem Call.Stands.pos_le {text : List Char} {k : Call} (h : k.Stands text) : k.pos ≤ text.length := by
  cases k <;> first | exact h | exact Nat.le_of_lt h

section Answers

variable (text : List Char)

/-- What the running parser reads at the position of a call, and the place after it. -/
def answer : (k : Call) → Except SyntaxError (k.Answer × Cursor)
  | .blanks n => .ok ((), (place text n).skipBlanks)
  | .linebreaks n => .ok ((), (place text n).skipLinebreaks)
  | .separators n => .ok ((), (place text n).skipSeparators)
  | .span p n => .ok ((place text n).rest.takeWhile p, (place text n).skipWhile p)
  | .statements closer n => seen (statements closer (place text n))
  | .andOr n => passed (andOr (place text n))
  | .links n => seen (links (place text n))
  | .pipeline n => passed (pipeline (place text n))
  | .piped n => seen (piped (place text n))
  | .command n => passed (command (place text n))
  | .trailing n => seen (trailing (place text n))
  | .simple n => passed (simple (place text n))
  | .items named n => seen (items named (place text n))
  | .redirect n => orStay (place text n) (passed? (redirect? (place text n)))
  | .word inDefault n => seen (word inDefault (place text n))
  | .quotation n => do
    let (parts, e) ← seen (doubleQuoted (place text n) (place text (n + 1)))
    return (Word.cons (.literal "" true) parts, e)
  | .quoted start n => seen (doubleQuoted (place text start) (place text n))
  | .parameter n => .ok ((parameterName (place text n)).value, (parameterName (place text n)).next)
  | .dollar quoted n => passed (dollar quoted (place text n))

/-- What was read, with the position after it. -/
def located {α : Type} (r : Except SyntaxError (α × Cursor)) : Except SyntaxError (α × Nat) :=
  r.map fun x => (x.1, positionOf text x.2)

/-- What a call is answered, with the position after it. -/
def told (k : Call) : Except SyntaxError (k.Answer × Nat) := located text (answer text k)

variable {text}

theorem within_of_size {n : Nat} {e : Cursor} (hn : n ≤ text.length) (h : (place text 0).Within e)
    (hsize : e.size ≤ (place text n).size) : (place text n).Within e := by
  obtain ⟨m, rfl, -, hm⟩ := exists_place text (Nat.zero_le _) h
  rw [size_place, size_place] at hsize
  exact ⟨m - n, by rw [advance_place, Nat.add_sub_cancel' (by omega)]⟩

theorem within_quoted {start n : Nat} {w : Word} {e : Cursor} (hn : n ≤ text.length)
    (h : seen (doubleQuoted (place text start) (place text n)) = .ok (w, e)) : (place text n).Within e :=
  within_of_size hn ((moves_doubleQuoted (n := 0) (closedBy_nil _) ⟨start, rfl⟩ ⟨n, rfl⟩).within h).2 (le_of_seen h)

theorem answer_within {k : Call} (hk : k.Stands text) {a : k.Answer} {e : Cursor} (h : answer text k = .ok (a, e)) :
    (place text k.pos).Within e := by
  have ho (n : Nat) : (place text n).ClosedBy [] := closedBy_nil _
  have here (n : Nat) : (place text n).Within (place text n) := .refl _
  cases k with
  | blanks n => cases h; exact (here n).skipBlanks
  | linebreaks n => cases h; exact (here n).skipLinebreaks
  | separators n => cases h; exact (here n).skipSeparators
  | span p n => cases h; exact (here n).skipWhile p
  | statements closer n => exact ((moves_statements (n := 0) closer (ho n) (fun _ => rfl) (here n)).within h).2
  | andOr n => exact ((moves_andOr (n := 0) (ho n) (here n)).within h).2
  | links n => exact ((moves_links (n := 0) (ho n) (here n)).within h).2
  | pipeline n => exact ((moves_pipeline (n := 0) (ho n) (here n)).within h).2
  | piped n => exact ((moves_piped (n := 0) (ho n) (here n)).within h).2
  | command n => exact ((moves_command (n := 0) (ho n) (here n)).within h).2
  | trailing n => exact ((moves_trailing (n := 0) (ho n) (here n)).within h).2
  | simple n => exact ((moves_simple (n := 0) (ho n) (here n)).within h).2
  | items named n => exact ((moves_items (n := 0) (ho n) (here n)).within h).2
  | redirect n =>
    obtain ⟨hread, hstay⟩ := eq_of_orStay h
    cases a with
    | none =>
      obtain rfl := hstay rfl
      exact here n
    | some found => exact ((moves_redirect? (n := 0) (ho n) (here n)).within hread _ rfl).2
  | word inDefault n => exact ((moves_word (n := 0) (ho n) (here n)).within h).2
  | quotation n =>
    obtain ⟨⟨parts, e⟩, hread, h⟩ := eq_ok_of_bind h
    cases h
    obtain ⟨k, rfl⟩ : (place text (n + 1)).Within e := within_quoted hk hread
    exact ⟨1 + k, by rw [advance_place, advance_place, Nat.add_assoc]; rfl⟩
  | quoted start n => exact within_quoted hk h
  | parameter n => cases h; exact parameterName_within (here n)
  | dollar quoted n =>
    obtain ⟨r, hrest⟩ : ∃ r, (place text n).rest = text[n] :: r :=
      ⟨_, by rw [rest_place]; exact List.drop_eq_getElem_cons hk⟩
    exact ((moves_dollar (n := 0) (ho n) (here n) hrest).within h).2

/-- What is told is what was answered, and the position is in the text and not before that of the call. -/
theorem told_cases {k : Call} (hk : k.Stands text) :
    (∃ e, answer text k = .error e ∧ told text k = .error e) ∨
      ∃ a m, answer text k = .ok (a, place text m) ∧ told text k = .ok (a, m) ∧ k.pos ≤ m ∧ m ≤ text.length := by
  unfold told
  cases hread : answer text k with
  | error e => exact .inl ⟨e, rfl, rfl⟩
  | ok x =>
    obtain ⟨a, e⟩ := x
    obtain ⟨m, rfl, hpos, hm⟩ := exists_place text hk.pos_le (answer_within hk hread)
    exact .inr ⟨a, m, rfl, by rw [located, Except.map, positionOf_place text hm], hpos, hm⟩

end Answers

/-! ## Following the parser -/

namespace Course

section Follows

variable {text : List Char} {ok : Call → Prop} {α β : Type}

/-- A course does what the running parser does: it has the same outcome if the calls made in it, of which
something holds, are answered as the running parser answers them. -/
def Follows (text : List Char) (ok : Call → Prop) : Course α → Except SyntaxError α → Prop
  | .done a, r => r = .ok a
  | .fail n fault, r => r = Parser.fail (place text n) fault
  | .slice first last go, r => first ≤ last ∧ last ≤ text.length ∧
      Follows text ok (go ((place text first).upTo (place text last))) r
  | .line n go, r => n ≤ text.length ∧ Follows text ok (go (place text n).line) r
  | .call k go, r => ok k ∧ (∀ x, told text k = .ok x → Follows text ok (go x) r) ∧
      ∀ e, told text k = .error e → r = .error e

theorem Follows.done {a : α} {e : Cursor} {m : Nat} (he : e = place text m) (hm : m ≤ text.length) :
    (Course.done (a, m)).Follows text ok (located text (.ok (a, e))) := by
  subst he
  rw [Follows, located, Except.map, positionOf_place text hm]

theorem Follows.fail (n : Nat) (fault : SyntaxFault) :
    (Course.fail n fault : Course (α × Nat)).Follows text ok (located text (Parser.fail (place text n) fault)) := rfl

theorem Follows.tail {k : Call} (hok : ok k) : (ask k).Follows text ok (told text k) :=
  ⟨hok, fun _ hx => hx, fun _ he => he⟩

/-- A call of a function of the parser, and what is done with its answer. -/
theorem Follows.ask {k : Call} {go : k.Answer × Nat → Course (β × Nat)}
    {f : k.Answer × Cursor → Except SyntaxError (β × Cursor)} (hok : ok k) (hk : k.Stands text)
    (h : ∀ a m, answer text k = .ok (a, place text m) → k.pos ≤ m → m ≤ text.length →
      (go (a, m)).Follows text ok (located text (f (a, place text m)))) :
    (Course.ask k >>= go).Follows text ok (located text (answer text k >>= f)) := by
  obtain ⟨e, hread, htold⟩ | ⟨a, m, hread, htold, hpos, hm⟩ := told_cases hk
  · refine ⟨hok, fun x hx => ?_, fun e' he => ?_⟩
    · cases htold.symm.trans hx
    · cases htold.symm.trans he
      rw [hread]
      rfl
  · refine ⟨hok, fun x hx => ?_, fun e he => ?_⟩
    · cases htold.symm.trans hx
      rw [hread]
      exact h a m hread hpos hm
    · cases htold.symm.trans he

/-- A call that has an answer. -/
theorem Follows.past {k : Call} {go : k.Answer × Nat → Course α} {r : Except SyntaxError α} {a : k.Answer} {e : Cursor}
    (hok : ok k) (hk : k.Stands text) (hread : answer text k = .ok (a, e))
    (h : ∀ m, e = place text m → k.pos ≤ m → m ≤ text.length → (go (a, m)).Follows text ok r) :
    (Course.ask k >>= go).Follows text ok r := by
  obtain ⟨_, herror, -⟩ | ⟨a', m, hread', htold, hpos, hm⟩ := told_cases hk
  · cases hread.symm.trans herror
  · cases hread.symm.trans hread'
    refine ⟨hok, fun x hx => ?_, fun e he => ?_⟩
    · cases htold.symm.trans hx
      exact h m rfl hpos hm
    · cases htold.symm.trans he

theorem Follows.bind {c : Course α} {r : Except SyntaxError α} {f : α → Course β} {g : α → Except SyntaxError β}
    (hc : c.Follows text ok r) (h : ∀ a, r = .ok a → (f a).Follows text ok (g a)) :
    (c >>= f).Follows text ok (r >>= g) := by
  change (c.bind f).Follows text ok (r >>= g)
  induction c with
  | done a =>
    cases hc
    exact h a rfl
  | fail n fault =>
    cases hc
    rfl
  | slice first last go ih => exact ⟨hc.1, hc.2.1, ih _ hc.2.2⟩
  | line n go ih => exact ⟨hc.1, ih _ hc.2⟩
  | call k go ih =>
    refine ⟨hc.1, fun x hx => ih x (hc.2.1 x hx), fun e he => ?_⟩
    rw [hc.2.2 e he]
    rfl

/-- A part of a course that does what a function of the parser does, and what comes after it. -/
theorem Follows.located {c : Course (α × Nat)} {r : Except SyntaxError (α × Cursor)} {f : α × Nat → Course (β × Nat)}
    {g : α × Cursor → Except SyntaxError (β × Cursor)} (hc : c.Follows text ok (located text r))
    (h : ∀ a e, r = .ok (a, e) → ∃ m, e = place text m ∧ m ≤ text.length ∧
      (f (a, m)).Follows text ok (located text (g (a, place text m)))) :
    (c >>= f).Follows text ok (Shell.located text (r >>= g)) := by
  cases r with
  | error e => exact hc.bind (g := fun _ => .error e) fun _ hx => by cases hx
  | ok x =>
    obtain ⟨a, e⟩ := x
    obtain ⟨m, rfl, hm, hf⟩ := h a e rfl
    refine hc.bind (g := fun _ => Shell.located text (g (a, place text m))) fun x hx => ?_
    rw [Shell.located, Except.map, positionOf_place text hm] at hx
    cases hx
    exact hf

variable {answers : (k : Call) → Option (Except SyntaxError (k.Answer × Nat))}

/-- The outcome of a course is that of the running parser if its calls have the outcomes they have there. -/
theorem Follows.run_eq {c : Course α} {r : Except SyntaxError α} (hc : c.Follows text ok r)
    (h : ∀ k, ok k → answers k = some (told text k)) : c.run text answers = some r := by
  induction c with
  | done a =>
    cases hc
    rfl
  | fail n fault =>
    cases hc
    rw [run, faultAt?_eq]
    rfl
  | slice first last go ih =>
    rw [run, slice?_eq text hc.1 hc.2.1]
    exact ih _ hc.2.2
  | line n go ih =>
    rw [run, lineAt?_eq text hc.1]
    exact ih _ hc.2
  | call k go ih =>
    rw [run, h k hc.1]
    cases hread : told text k with
    | error e =>
      rw [hc.2.2 e hread]
      rfl
    | ok x => exact ih x (hc.2.1 x hread)

/-- The same of calls that need not have outcomes. -/
theorem Follows.of_run {c : Course α} {r s : Except SyntaxError α} (hc : c.Follows text ok r)
    (h : ∀ k x, ok k → answers k = some x → x = told text k) (hs : c.run text answers = some s) : s = r := by
  induction c with
  | done a =>
    cases hc
    cases hs
    rfl
  | fail n fault =>
    cases hc
    rw [run, faultAt?_eq] at hs
    cases hs
    rfl
  | slice first last go ih =>
    rw [run, slice?_eq text hc.1 hc.2.1] at hs
    exact ih _ hc.2.2 hs
  | line n go ih =>
    rw [run, lineAt?_eq text hc.1] at hs
    exact ih _ hc.2 hs
  | call k go ih =>
    rw [run] at hs
    cases hanswer : answers k with
    | none =>
      rw [hanswer] at hs
      cases hs
    | some x =>
      rw [hanswer] at hs
      have hx := h k x hc.1 hanswer
      cases x with
      | error e =>
        cases hs
        exact (hc.2.2 e hx.symm).symm
      | ok x => exact ih x (hc.2.1 x hx.symm) hs

theorem Follows.makes {c : Course α} {r : Except SyntaxError α} {k : Call} (hc : c.Follows text ok r)
    (h : ∀ k x, ok k → answers k = some x → x = told text k) (hk : c.Makes text answers k) : ok k := by
  induction hk with
  | here => exact hc.1
  | later hx _ ih => exact ih (hc.2.1 _ (h _ _ hc.1 hx).symm)
  | slice hcs _ ih =>
    rw [slice?_eq text hc.1 hc.2.1] at hcs
    cases hcs
    exact ih hc.2.2
  | line hl _ ih =>
    rw [lineAt?_eq text hc.1] at hl
    cases hl
    exact ih hc.2

end Follows

end Course

end Taskwork.Shell
