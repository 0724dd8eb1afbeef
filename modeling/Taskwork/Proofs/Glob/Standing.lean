/-
Which characters of a pattern stand for themselves. A pattern is written from characters of which
some are quoted; those with a meaning are put in brackets of their own. Every character stands for
itself in all that the pattern matches, unless it is an unquoted wildcard, or in a set whose bracket
is not quoted: in there a quoted character is a member, or means what it would mean unquoted. The
proof takes the pattern apart character by character, as the reader of patterns does.
-/
import Taskwork.Glob.Literal
import Taskwork.Glob.Pattern
import Mathlib.Data.List.Forall2

namespace Taskwork.Glob

/-! ## Patterns with quoted characters -/

/-- A character, and whether it is quoted. -/
abbrev Mark := Char × Bool

/-- How a character is written in a pattern. -/
def renderChar (m : Mark) : List Char := if m.2 && isSpecial m.1 then ['[', m.1, ']'] else [m.1]

def render (ms : List Mark) : List Char := ms.flatMap renderChar

/-- Whether a set that is open ends within this character. -/
def closes (m : Mark) : Bool := m.1 == ']' || (m.2 && isSpecial m.1)

/-- How many characters belong to a set, up to the one that closes it. -/
def untilClosed : List Mark → Nat
  | [] => 0
  | m :: ms => if closes m then 1 else 1 + untilClosed ms

/-- How many characters belong to a set from its first member on, which may be a bracket. -/
def memberLength : List Mark → Nat
  | [] => 0
  | m :: ms => if m.2 && isSpecial m.1 then 1 else 1 + untilClosed ms

/-- How many characters belong to a set after its opening bracket. -/
def setLength : List Mark → Nat
  | [] => 0
  | m :: ms => if m.1 == '!' then 1 + memberLength ms else memberLength (m :: ms)

/-- Which characters stand for themselves; the first `n` are part of a set. -/
def standing : Nat → List Mark → List Mark
  | _, [] => []
  | n + 1, m :: ms => (m.1, false) :: standing n ms
  | 0, (c, true) :: ms => (c, true) :: standing 0 ms
  | 0, (c, false) :: ms =>
    if c == '[' then (c, false) :: standing (setLength ms) ms
    else (c, c != '*' && c != '?') :: standing 0 ms

/-- A text in which the characters that stand for themselves are as they are, and the others have
any text in their place. -/
inductive Fits : List Mark → List Char → Prop where
  | nil : Fits [] []
  | self {c : Char} {ms : List Mark} {cs : List Char} (h : Fits ms cs) : Fits ((c, true) :: ms) (c :: cs)
  | free {c : Char} {ms : List Mark} {cs : List Char} (text : List Char) (h : Fits ms cs) :
    Fits ((c, false) :: ms) (text ++ cs)

theorem Fits.skip {c : Char} {ms : List Mark} {cs : List Char} (h : Fits ms cs) :
    Fits ((c, false) :: ms) cs := .free [] h

/-- The same character, which is not asked to stand for itself where the other one is not. -/
def AsksLess (m' m : Mark) : Prop := m'.1 = m.1 ∧ (m'.2 = true → m.2 = true)

theorem Fits.weaken {ms ms' : List Mark} {cs : List Char} (h : Fits ms cs)
    (hle : List.Forall₂ AsksLess ms' ms) : Fits ms' cs := by
  induction h generalizing ms' with
  | nil => cases hle; exact .nil
  | self h ih =>
    obtain _ | ⟨⟨hchar, -⟩, hrest⟩ := hle
    rename_i m' _
    obtain ⟨c', b⟩ := m'
    obtain rfl : c' = _ := hchar
    cases b with
    | true => exact .self (ih hrest)
    | false => exact .free [c'] (ih hrest)
  | free text h ih =>
    obtain _ | ⟨⟨hchar, hle⟩, hrest⟩ := hle
    rename_i m' _
    obtain ⟨c', b⟩ := m'
    obtain rfl : c' = _ := hchar
    cases b with
    | true => cases hle rfl
    | false => exact .free text (ih hrest)

/-! ## Sets -/

/-- A text after an opening bracket, of which `region` is in the set. If a quoted bracket closed it,
the end of how that one is written is left over. -/
structure Closed (ms region rest : List Mark) (after : List Char) : Prop where
  parts : ms = region ++ rest
  after : after = render rest ∨ after = ']' :: render rest

theorem renderChar_of_plain {m : Mark} (h : (m.2 && isSpecial m.1) = false) : renderChar m = [m.1] := by
  rw [renderChar, h]; rfl

theorem renderChar_of_special {m : Mark} (h : (m.2 && isSpecial m.1) = true) :
    renderChar m = ['[', m.1, ']'] := by
  rw [renderChar, h]; rfl

theorem render_cons (m : Mark) (ms : List Mark) : render (m :: ms) = renderChar m ++ render ms := rfl

theorem render_append (ms ms' : List Mark) : render (ms ++ ms') = render ms ++ render ms' :=
  List.flatMap_append

/-- A text that is quoted is escaped, and any other is written as it is. -/
theorem render_quoted (cs : List Char) : render (cs.map (·, true)) = escapeChars cs := by
  unfold render escapeChars
  rw [List.flatMap_map]
  rfl

theorem render_unquoted (cs : List Char) : render (cs.map (·, false)) = cs := by
  induction cs with
  | nil => rfl
  | cons c cs ih =>
    rw [List.map_cons, render_cons, ih]
    rfl

/-- Whatever is written with no bracket at first is a character as it is. -/
theorem render_eq_cons {ms : List Mark} {x : Char} {r : List Char} (h : render ms = x :: r) (hx : x ≠ '[') :
    ∃ b ms', ms = (x, b) :: ms' ∧ (b && isSpecial x) = false ∧ r = render ms' := by
  cases ms with
  | nil => cases h
  | cons m ms =>
    obtain ⟨c, b⟩ := m
    rw [render_cons] at h
    cases hspecial : (b && isSpecial c) with
    | true =>
      rw [renderChar_of_special hspecial] at h
      exact absurd (List.cons.inj h).1.symm hx
    | false =>
      rw [renderChar_of_plain hspecial] at h
      obtain ⟨rfl, hr⟩ := List.cons.inj h
      exact ⟨b, ms, rfl, hspecial, hr.symm⟩

theorem render_eq_nil {ms : List Mark} (h : render ms = []) : ms = [] := by
  cases ms with
  | nil => rfl
  | cons m ms =>
    rw [render_cons, renderChar] at h
    split at h <;> cases h

theorem closed_untilClosed {ms : List Mark} {x : Char} {after : List Char}
    (h : (render ms).dropWhile (· != ']') = x :: after) :
    ∃ region rest, Closed ms region rest after ∧ region.length = untilClosed ms := by
  induction ms with
  | nil => cases h
  | cons m ms ih =>
    rw [render_cons] at h
    unfold untilClosed
    cases hspecial : (m.2 && isSpecial m.1) with
    | true =>
      have hcloses : closes m = true := by rw [closes, hspecial, Bool.or_true]
      rw [renderChar_of_special hspecial] at h
      refine ⟨[m], ms, ⟨rfl, ?_⟩, by simp [hcloses]⟩
      by_cases hm : m.1 = ']'
      · simp [hm] at h
        exact .inr h.2.symm
      · simp [hm] at h
        exact .inl h.2.symm
    | false =>
      rw [renderChar_of_plain hspecial] at h
      by_cases hm : m.1 = ']'
      · refine ⟨[m], ms, ⟨rfl, ?_⟩, by simp [closes, hm]⟩
        simp [hm] at h
        exact .inl h.2.symm
      · have hcloses : closes m = false := by simp [closes, hm, hspecial]
        have hrest : (render ms).dropWhile (· != ']') = x :: after := by simpa [hm] using h
        obtain ⟨region, rest, ⟨hparts, hafter⟩, hlength⟩ := ih hrest
        exact ⟨m :: region, rest, ⟨by rw [hparts]; rfl, hafter⟩, by simp [hcloses, hlength]; omega⟩

theorem closed_memberLength {m : Mark} {ms : List Mark} {first x : Char} {rest after : List Char}
    (hread : render (m :: ms) = first :: rest) (h : rest.dropWhile (· != ']') = x :: after) :
    ∃ region tail, Closed (m :: ms) region tail after ∧ region.length = memberLength (m :: ms) := by
  rw [render_cons] at hread
  cases hspecial : (m.2 && isSpecial m.1) with
  | true =>
    rw [renderChar_of_special hspecial] at hread
    obtain ⟨rfl, rfl⟩ := List.cons.inj hread
    refine ⟨[m], ms, ⟨rfl, ?_⟩, by rw [memberLength, if_pos hspecial]; rfl⟩
    by_cases hm : m.1 = ']'
    · simp [hm] at h
      exact .inr h.2.symm
    · simp [hm] at h
      exact .inl h.2.symm
  | false =>
    rw [renderChar_of_plain hspecial] at hread
    obtain ⟨rfl, rfl⟩ := List.cons.inj hread
    obtain ⟨region, tail, ⟨hparts, hafter⟩, hlength⟩ := closed_untilClosed h
    refine ⟨m :: region, tail, ⟨by rw [hparts]; rfl, hafter⟩, ?_⟩
    rw [memberLength, if_neg (by simp [hspecial]), List.length_cons, hlength, Nat.add_comm]

/-- A set that is read takes just the characters that `setLength` counts. -/
theorem closed_setLength {ms : List Mark} {negated : Bool} {set after : List Char}
    (h : bracket? (render ms) = some (negated, set, after)) :
    ∃ region rest, Closed ms region rest after ∧ region.length = setLength ms := by
  unfold bracket? at h
  dsimp only at h
  split at h <;> rename_i hread
  · -- the set is negated
    split at h <;> rename_i hx <;> cases h
    obtain ⟨b, ms, rfl, -, hms⟩ := render_eq_cons hread (by decide)
    cases ms with
    | nil => cases hms
    | cons first ms =>
      obtain ⟨region, rest, ⟨hparts, hafter⟩, hlength⟩ := closed_memberLength hms.symm hx
      refine ⟨('!', b) :: region, rest, ⟨by rw [hparts]; rfl, hafter⟩, ?_⟩
      rw [setLength, if_pos (by rfl), List.length_cons, hlength, Nat.add_comm]
  · cases h
  · rename_i first rest hbang halone
    split at h <;> rename_i hx <;> cases h
    cases ms with
    | nil => cases hread
    | cons m ms =>
      have hm : m.1 ≠ '!' := by
        intro hm
        have hplain : renderChar m = ['!'] := by
          rw [renderChar_of_plain (by rw [hm]; exact Bool.and_false _), hm]
        rw [render_cons, hplain] at hread
        obtain ⟨rfl, hrest⟩ := List.cons.inj hread
        cases rest with
        | nil => exact halone rfl rfl
        | cons first rest => exact hbang first rest rfl rfl
      rw [setLength, if_neg (by simpa using hm)]
      exact closed_memberLength hread hx
  · cases h

/-! ## Tokens -/

theorem tokensFrom_char {before : Option Char} {c : Char} {r : List Char}
    (hc : c ≠ '?' ∧ c ≠ '*' ∧ c ≠ '[') :
    tokensFrom before (c :: r) = (tokensFrom (some c) r).map (.char c :: ·) := by
  rw [tokensFrom] <;> simp [hc]

theorem tokensFrom_bracket (before : Option Char) (r : List Char) :
    tokensFrom before ('[' :: r) = match bracket? r with
      | none => .error .range
      | some (negated, set, after) => (tokensFrom (some ']') after).map
          ((if negated then Token.without (rangesOf set) else .within (rangesOf set)) :: ·) := by
  rw [tokensFrom]
  split <;> rename_i h
  · simp only [h]
  · dsimp only
    simp only [h]

/-- A star is one for any text, unless another one follows it. -/
theorem tokensFrom_star {before : Option Char} {r : List Char} (hr : r.head? ≠ some '*') :
    tokensFrom before ('*' :: r) = (tokensFrom (some '*') r).map (.anyText :: ·) := by
  rw [tokensFrom]
  · rintro r' rfl
    exact hr rfl
  · rintro r' rfl
    exact hr rfl

/-- Two stars are one for any directories, and stand alone between slashes. -/
theorem tokensFrom_stars {before : Option Char} {r : List Char} {ts : List Token}
    (h : tokensFrom before ('*' :: '*' :: r) = .ok ts) (hr : r.head? ≠ some '/') :
    (before = none ∨ before = some '/') ∧ r = [] ∧ ts = [.anyDirectories] := by
  cases r with
  | nil =>
    rw [tokensFrom] at h
    · split at h <;> rename_i hbefore
      · cases h
        refine ⟨?_, rfl, rfl⟩
        cases before with
        | none => exact .inl rfl
        | some c => exact .inr (by simpa using hbefore)
      · cases h
  | cons x r =>
    have hx : x ≠ '/' := fun hx => hr (by rw [hx]; rfl)
    by_cases hstar : x = '*'
    · subst hstar
      rw [tokensFrom] at h
      cases h
    · rw [tokensFrom] at h
      · split at h <;> cases h
      · rintro r' heq
        exact hstar (List.cons.inj heq).1
      · intro heq
        cases heq
      · rintro r' heq
        exact hx (List.cons.inj heq).1

theorem eq_of_map_ok {ts : List Token} {f : List Token → List Token}
    {r : Except PatternFault (List Token)} (h : r.map f = .ok ts) : ∃ ts', r = .ok ts' ∧ ts = f ts' := by
  cases r with
  | error e => cases h
  | ok ts' =>
    cases h
    exact ⟨ts', rfl, rfl⟩

/-- How a pattern without slashes is read, character by character, with `before` what stands before
it. -/
inductive Reads : Option Char → List Mark → List Token → Prop where
  | nil {before : Option Char} : Reads before [] []
  /-- A character with no meaning. -/
  | plain {before : Option Char} {m : Mark} {ms : List Mark} {ts : List Token}
    (hm : m.1 ≠ '?' ∧ m.1 ≠ '*' ∧ m.1 ≠ '[') (h : Reads (some m.1) ms ts) :
    Reads before (m :: ms) (.char m.1 :: ts)
  /-- A quoted character in brackets of its own. -/
  | quoted {before : Option Char} {c : Char} {ms : List Mark} {ts : List Token} (h : Reads (some ']') ms ts) :
    Reads before ((c, true) :: ms) (.within [.one c] :: ts)
  | anyChar {before : Option Char} {ms : List Mark} {ts : List Token} (h : Reads (some '?') ms ts) :
    Reads before (('?', false) :: ms) (.anyChar :: ts)
  | anyText {before : Option Char} {ms : List Mark} {ts : List Token} (h : Reads (some '*') ms ts) :
    Reads before (('*', false) :: ms) (.anyText :: ts)
  | anyDirectories {before : Option Char} (hbefore : before = none ∨ before = some '/') :
    Reads before [('*', false), ('*', false)] [.anyDirectories]
  | set {before : Option Char} {region rest : List Mark} {t : Token} {ts : List Token}
    (hlength : region.length = setLength (region ++ rest)) (ht : t ≠ .anyText ∧ t ≠ .anyDirectories)
    (h : Reads (some ']') rest ts) : Reads before (('[', false) :: (region ++ rest)) (t :: ts)
  /-- The end of a quoted bracket, which has closed the set, is a character of its own. -/
  | cutSet {before : Option Char} {region rest : List Mark} {t : Token} {ts : List Token}
    (hlength : region.length = setLength (region ++ rest)) (ht : t ≠ .anyText ∧ t ≠ .anyDirectories)
    (h : Reads (some ']') rest ts) :
    Reads before (('[', false) :: (region ++ rest)) (t :: .char ']' :: ts)

theorem bracket?_quoted {c : Char} (hc : isSpecial c = true) (r : List Char) :
    bracket? (c :: ']' :: r) = some (false, [c], r) := by
  unfold bracket?
  dsimp only
  split <;> rename_i heq
  · cases heq
    exact absurd hc (by decide)
  · cases heq
  · cases heq
    simp
  · cases heq

/-- Patterns of fewer than `n` marks are read so. -/
def ReadBelow (n : Nat) : Prop :=
  ∀ (ms : List Mark) (before : Option Char) (ts : List Token), ms.length < n → (∀ m ∈ ms, m.1 ≠ '/') →
    tokensFrom before (render ms) = .ok ts → Reads before ms ts

section

variable {before : Option Char} {ms : List Mark} {ts : List Token} (hbelow : ReadBelow (ms.length + 1))
  (hslash : ∀ m ∈ ms, m.1 ≠ '/')

include hbelow hslash

theorem reads_quoted {c : Char} (hc : isSpecial c = true)
    (h : tokensFrom before ('[' :: c :: ']' :: render ms) = .ok ts) : Reads before ((c, true) :: ms) ts := by
  rw [tokensFrom_bracket, bracket?_quoted hc] at h
  obtain ⟨ts', hrest, rfl⟩ := eq_of_map_ok h
  exact .quoted (hbelow ms _ _ (Nat.lt_succ_self _) hslash hrest)

theorem reads_question (h : tokensFrom before ('?' :: render ms) = .ok ts) :
    Reads before (('?', false) :: ms) ts := by
  rw [tokensFrom] at h
  obtain ⟨ts', hrest, rfl⟩ := eq_of_map_ok h
  exact .anyChar (hbelow ms _ _ (Nat.lt_succ_self _) hslash hrest)

theorem reads_star (h : tokensFrom before ('*' :: render ms) = .ok ts) :
    Reads before (('*', false) :: ms) ts := by
  by_cases hstar : (render ms).head? = some '*'
  · -- there is no slash behind the second star, so nothing may be
    obtain ⟨r, hr⟩ := List.head?_eq_some_iff.mp hstar
    obtain ⟨b, ms', rfl, hplain, rfl⟩ := render_eq_cons hr (by decide)
    obtain rfl : b = false := by simpa [isSpecial] using hplain
    have hhead : (render ms').head? ≠ some '/' := by
      intro hhead
      obtain ⟨r', hr'⟩ := List.head?_eq_some_iff.mp hhead
      obtain ⟨b, ms'', rfl, -⟩ := render_eq_cons hr' (by decide)
      exact hslash ('/', b) (by simp) rfl
    rw [hr] at h
    obtain ⟨hbefore, hnil, rfl⟩ := tokensFrom_stars h hhead
    obtain rfl := render_eq_nil hnil
    exact .anyDirectories hbefore
  · rw [tokensFrom_star hstar] at h
    obtain ⟨ts', hrest, rfl⟩ := eq_of_map_ok h
    exact .anyText (hbelow ms _ _ (Nat.lt_succ_self _) hslash hrest)

theorem reads_set (h : tokensFrom before ('[' :: render ms) = .ok ts) :
    Reads before (('[', false) :: ms) ts := by
  rw [tokensFrom_bracket] at h
  split at h <;> rename_i hset
  · cases h
  · obtain ⟨region, rest, ⟨rfl, hafter⟩, hlength⟩ := closed_setLength hset
    have hrestslash : ∀ m ∈ rest, m.1 ≠ '/' := fun m hm => hslash m (List.mem_append_right _ hm)
    have hlt : rest.length < (region ++ rest).length + 1 := by
      rw [List.length_append]
      omega
    obtain ⟨ts', hrest, rfl⟩ := eq_of_map_ok h
    have ht {negated : Bool} {set : List Char} :
        (if negated then Token.without (rangesOf set) else .within (rangesOf set)) ≠ .anyText ∧
        (if negated then Token.without (rangesOf set) else .within (rangesOf set)) ≠ .anyDirectories := by
      cases negated <;> constructor <;> intro h <;> cases h
    rcases hafter with rfl | rfl
    · exact .set hlength ht (hbelow rest _ _ hlt hrestslash hrest)
    · rw [tokensFrom_char ⟨by decide, by decide, by decide⟩] at hrest
      obtain ⟨ts'', hleft, rfl⟩ := eq_of_map_ok hrest
      exact .cutSet hlength ht (hbelow rest _ _ hlt hrestslash hleft)

theorem reads_char {m : Mark} (hm : m.1 ≠ '?' ∧ m.1 ≠ '*' ∧ m.1 ≠ '[')
    (h : tokensFrom before (m.1 :: render ms) = .ok ts) : Reads before (m :: ms) ts := by
  rw [tokensFrom_char hm] at h
  obtain ⟨ts', hrest, rfl⟩ := eq_of_map_ok h
  exact .plain hm (hbelow ms _ _ (Nat.lt_succ_self _) hslash hrest)

end

theorem readBelow (n : Nat) : ReadBelow n := by
  -- on the length, since a set is read at once
  induction n with
  | zero => exact fun ms before ts hlt => absurd hlt (Nat.not_lt_zero _)
  | succ n ih =>
    intro ms before ts hlt hslash h
    cases ms with
    | nil =>
      rw [render, List.flatMap_nil, tokensFrom] at h
      cases h
      exact .nil
    | cons m ms =>
      have hbelow : ReadBelow (ms.length + 1) := fun ms' before ts hlt' =>
        ih ms' before ts (Nat.lt_of_lt_of_le hlt' (Nat.le_of_lt_succ hlt))
      have hmore : ∀ x ∈ ms, x.1 ≠ '/' := fun x hx => hslash x (List.mem_cons_of_mem _ hx)
      rw [render_cons] at h
      cases hspecial : (m.2 && isSpecial m.1) with
      | true =>
        obtain ⟨c, quoted⟩ := m
        obtain ⟨rfl, hc⟩ := Bool.and_eq_true_iff.mp hspecial
        rw [renderChar_of_special hspecial] at h
        exact reads_quoted hbelow hmore hc h
      | false =>
        rw [renderChar_of_plain hspecial] at h
        have hplain (hc : isSpecial m.1 = true) : m = (m.1, false) := by
          rw [hc, Bool.and_true] at hspecial
          exact Prod.ext rfl hspecial
        by_cases hq : m.1 = '?'
        · rw [hplain (by rw [hq]; decide), hq]
          exact reads_question hbelow hmore (hq ▸ h)
        by_cases hs : m.1 = '*'
        · rw [hplain (by rw [hs]; decide), hs]
          exact reads_star hbelow hmore (hs ▸ h)
        by_cases ho : m.1 = '['
        · rw [hplain (by rw [ho]; decide), ho]
          exact reads_set hbelow hmore (ho ▸ h)
        · exact reads_char hbelow hmore ⟨hq, hs, ho⟩ h

theorem reads_of_tokensFrom {ms : List Mark} {before : Option Char} {ts : List Token}
    (h : tokensFrom before (render ms) = .ok ts) (hslash : ∀ m ∈ ms, m.1 ≠ '/') : Reads before ms ts :=
  readBelow _ ms before ts (Nat.lt_succ_self _) hslash h

/-! ## Matching -/

theorem matchText_split {dots : Bool} {next : Bool → List Char → Bool} {atStart : Bool} {cs : List Char}
    (h : matchText dots next atStart cs = true) : ∃ text rest b, cs = text ++ rest ∧ next b rest = true := by
  induction cs generalizing atStart with
  | nil => exact ⟨[], [], atStart, rfl, h⟩
  | cons c cs ih =>
    rw [matchText, Bool.or_eq_true, Bool.and_eq_true] at h
    rcases h with h | ⟨-, h⟩
    · exact ⟨[], c :: cs, atStart, rfl, h⟩
    · obtain ⟨text, rest, b, rfl, hnext⟩ := ih h
      exact ⟨c :: text, rest, b, rfl, hnext⟩

theorem matchTokens_one {dots atStart : Bool} {t : Token} {ts : List Token} {cs : List Char}
    (h : matchTokens dots (t :: ts) atStart cs = true) (ht : t ≠ .anyText ∧ t ≠ .anyDirectories) :
    ∃ c rest, cs = c :: rest ∧ t.accepts dots atStart c = true ∧ matchTokens dots ts (c == '/') rest = true := by
  cases cs with
  | nil =>
    rw [matchTokens] at h
    · cases h
    · exact ht.1
    · exact ht.2
  | cons c rest =>
    rw [matchTokens, Bool.and_eq_true] at h
    · exact ⟨c, rest, rfl, h⟩
    · exact ht.1
    · exact ht.2

theorem standing_plain {m : Mark} (hm : m.1 ≠ '?' ∧ m.1 ≠ '*' ∧ m.1 ≠ '[') (ms : List Mark) :
    standing 0 (m :: ms) = (m.1, true) :: standing 0 ms := by
  obtain ⟨c, b⟩ := m
  cases b with
  | true => rfl
  | false =>
    obtain ⟨hq, hs, ho⟩ := hm
    rw [standing, if_neg (by simpa using ho)]
    simp [hq, hs]

theorem standing_region (region rest : List Mark) :
    standing region.length (region ++ rest) = region.map (fun m => (m.1, false)) ++ standing 0 rest := by
  induction region with
  | nil => rfl
  | cons m region ih =>
    rw [List.length_cons, List.cons_append, standing, ih]
    rfl

theorem Fits.skipAll {ms : List Mark} {cs : List Char} (h : Fits ms cs) (region : List Mark) :
    Fits (region.map (fun m => (m.1, false)) ++ ms) cs := by
  induction region with
  | nil => exact h
  | cons m region ih => exact ih.skip

theorem standing_set {region rest : List Mark} (hlength : region.length = setLength (region ++ rest)) :
    standing 0 (('[', false) :: (region ++ rest)) =
      ('[', false) :: (region.map (fun m => (m.1, false)) ++ standing 0 rest) := by
  rw [standing, if_pos (by rfl), ← hlength, standing_region]

/-- Where no set starts, every character stands for itself that is quoted or no wildcard. -/
theorem standing_of_no_set {ms : List Mark} (h : ('[', false) ∉ ms) :
    standing 0 ms = ms.map fun m => (m.1, m.2 || (m.1 != '*' && m.1 != '?')) := by
  induction ms with
  | nil => rfl
  | cons m ms ih =>
    rw [List.mem_cons, not_or] at h
    obtain ⟨c, quoted⟩ := m
    rw [List.map_cons, ← ih h.2]
    cases quoted with
    | true => rfl
    | false =>
      have hc : c ≠ '[' := fun hc => h.1 (by rw [hc])
      rw [standing, if_neg (by simpa using hc), Bool.false_or]

/-- A text that matches a pattern without slashes has the characters that stand for themselves as
they are. -/
theorem Reads.fits {dots : Bool} {before : Option Char} {ms : List Mark} {ts : List Token}
    (hreads : Reads before ms ts) {atStart : Bool} {cs : List Char}
    (h : matchTokens dots ts atStart cs = true) : Fits (standing 0 ms) cs := by
  induction hreads generalizing atStart cs with
  | nil =>
    rw [matchTokens, List.isEmpty_iff] at h
    rw [h]
    exact .nil
  | plain hm _ ih =>
    obtain ⟨c, rest, rfl, haccepts, hmatch⟩ := matchTokens_one h ⟨nofun, nofun⟩
    obtain rfl : c = _ := by simpa [Token.accepts] using haccepts
    rw [standing_plain hm]
    exact .self (ih hmatch)
  | quoted _ ih =>
    obtain ⟨c, rest, rfl, haccepts, hmatch⟩ := matchTokens_one h ⟨nofun, nofun⟩
    obtain rfl : c = _ := by simpa [Range.contains] using (Bool.and_eq_true_iff.mp haccepts).2
    exact .self (ih hmatch)
  | anyChar _ ih =>
    obtain ⟨c, rest, rfl, -, hmatch⟩ := matchTokens_one h ⟨nofun, nofun⟩
    exact .free [c] (ih hmatch)
  | anyText _ ih =>
    rw [matchTokens] at h
    obtain ⟨text, rest, b, rfl, hmatch⟩ := matchText_split h
    exact .free text (ih hmatch)
  | anyDirectories =>
    have hfits : Fits [('*', false), ('*', false)] (cs ++ []) := .free cs (.skip .nil)
    rwa [List.append_nil] at hfits
  | set hlength ht _ ih =>
    obtain ⟨c, tail, rfl, -, hmatch⟩ := matchTokens_one h ht
    rw [standing_set hlength]
    exact .free [c] ((ih hmatch).skipAll _)
  | cutSet hlength ht _ ih =>
    obtain ⟨c, tail, rfl, -, hmatch⟩ := matchTokens_one h ht
    obtain ⟨d, tail, rfl, -, hmatch⟩ := matchTokens_one hmatch ⟨nofun, nofun⟩
    rw [standing_set hlength]
    exact .free [c, d] ((ih hmatch).skipAll _)

/-- A part of a pattern that stands for any directories is just the two stars. -/
theorem Reads.eq_stars {before : Option Char} {ms : List Mark} {ts : List Token} (hreads : Reads before ms ts)
    (hslash : ∀ x ∈ ms, x.1 ≠ '/') (hmem : .anyDirectories ∈ ts) :
    (before = none ∨ before = some '/') ∧ ms = [('*', false), ('*', false)] := by
  -- behind another character no two stars are read
  induction hreads with
  | nil => cases hmem
  | plain _ _ ih =>
    obtain ⟨hbefore | hbefore, -⟩ := ih (fun x hx => hslash x (List.mem_cons_of_mem _ hx)) (by simpa using hmem)
    · cases hbefore
    · exact absurd (Option.some.inj hbefore) (hslash _ List.mem_cons_self)
  | quoted _ ih | anyChar _ ih | anyText _ ih =>
    obtain ⟨hbefore | hbefore, -⟩ :=
      ih (fun x hx => hslash x (List.mem_cons_of_mem _ hx)) (by simpa using hmem) <;> cases hbefore
  | anyDirectories hbefore => exact ⟨hbefore, rfl⟩
  | set _ ht _ ih =>
    obtain ⟨hbefore | hbefore, -⟩ :=
      ih (fun x hx => hslash x (List.mem_cons_of_mem _ (List.mem_append_right _ hx)))
        ((List.mem_cons.mp hmem).resolve_left (Ne.symm ht.2)) <;> cases hbefore
  | cutSet _ ht _ ih =>
    obtain ⟨hbefore | hbefore, -⟩ :=
      ih (fun x hx => hslash x (List.mem_cons_of_mem _ (List.mem_append_right _ hx)))
        (by simpa using (List.mem_cons.mp hmem).resolve_left (Ne.symm ht.2)) <;> cases hbefore

/-- A pattern without wildcards and sets has one token for each character of its text. -/
theorem eq_map_char {ts : List Token} {cs : List Char} (h : ts.mapM Token.char? = some cs) : ts = cs.map .char := by
  induction ts generalizing cs with
  | nil =>
    cases h
    rfl
  | cons t ts ih =>
    rw [List.mapM_cons] at h
    cases ht : t.char? with
    | none => simp [ht] at h
    | some c =>
      obtain rfl : t = .char c := by
        cases t <;> cases ht
        rfl
      cases hts : ts.mapM Token.char? with
      | none => simp [ht, hts] at h
      | some cs' =>
        obtain rfl : c :: cs' = cs := by simpa [ht, hts] using h
        rw [ih hts, List.map_cons]

/-- A pattern without wildcards and sets matches the text it stands for. -/
theorem matchTokens_of_chars {dots : Bool} {ts : List Token} {cs : List Char}
    (h : ts.mapM Token.char? = some cs) (atStart : Bool) : matchTokens dots ts atStart cs = true := by
  obtain rfl := eq_map_char h
  clear h
  induction cs generalizing atStart with
  | nil => rfl
  | cons c cs ih => simp [matchTokens, Token.accepts, ih]

end Taskwork.Glob
