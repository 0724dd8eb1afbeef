/-
Patterns of one text. Reading undoes escaping, whatever pattern follows (`literalChars?_escapeChars_append`). A pattern
that is read as a text has one token for each character of the text, and the token stands for this character and no
other; so the pattern is one, and it matches the text alone.
-/
import Taskwork.Glob.Resolve
import Taskwork.Proofs.Glob.Standing

namespace Taskwork.Glob

variable {cs text : List Char}

/-! ## Reading what was escaped -/

theorem literalChars?_escapeChars_append (cs rest : List Char) :
    literalChars? (escapeChars cs ++ rest) = (literalChars? rest).map (cs ++ ·) := by
  induction cs with
  | nil => simp [escapeChars]
  | cons c cs ih =>
    have hcons : escapeChars (c :: cs) ++ rest =
        (if isSpecial c then ['[', c, ']'] else [c]) ++ (escapeChars cs ++ rest) := by
      simp [escapeChars]
    rw [hcons]
    by_cases hc : isSpecial c = true
    · rw [if_pos hc]
      show literalChars? ('[' :: c :: ']' :: (escapeChars cs ++ rest)) = _
      rw [literalChars?, if_pos hc, ih, Option.map_map]
      rfl
    · rw [if_neg hc]
      have hplain : c ≠ '*' ∧ c ≠ '?' ∧ c ≠ '[' := by
        refine ⟨?_, ?_, ?_⟩ <;> rintro rfl <;> exact hc rfl
      show literalChars? (c :: (escapeChars cs ++ rest)) = _
      rw [literalChars?, if_neg (by simp [hplain]), ih, Option.map_map]
      · rfl
      · rintro d more rfl
        exact absurd rfl hplain.2.2

/-- A text is read back from its escaped form. -/
theorem literal?_escape (s : String) : literal? (escape s) = some s := by
  have h := literalChars?_escapeChars_append s.toList []
  rw [List.append_nil] at h
  simp [literal?, escape, h, literalChars?]

/-- Escaping keeps a last character that is not special. -/
theorem getLast?_escapeChars {c : Char} (hc : isSpecial c = false) :
    (escapeChars cs).getLast? = some c ↔ cs.getLast? = some c := by
  rcases cs.eq_nil_or_concat with rfl | ⟨before, last, rfl⟩
  · simp [escapeChars]
  · have hsplit : escapeChars (before.concat last) =
        escapeChars before ++ if isSpecial last then ['[', last, ']'] else [last] := by
      simp [escapeChars]
    rw [hsplit]
    split
    · rename_i hlast
      have hne : last ≠ c := by
        rintro rfl
        rw [hlast] at hc
        cases hc
      have hclose : ']' ≠ c := by
        rintro rfl
        cases hc
      simp [hne, hclose]
    · simp

/-! ## Tokens of one character -/

/-- A token that stands for one character: the character itself, or a set of one special character. -/
inductive Token.Single : Token → Char → Prop
  | char (c : Char) : Single (.char c) c
  | special {c : Char} (h : isSpecial c = true) : Single (.within [.one c]) c

namespace Token.Single

variable {t : Token} {x : Char}

/-- It is no dot, so it makes no difference whether a name starts here. -/
theorem accepts_iff (h : Single t x) {dots atStart : Bool} {c : Char} :
    t.accepts dots atStart c = true ↔ c = x := by
  cases h with
  | char => simp [accepts]
  | special hspecial =>
    have hdot : x ≠ '.' := by
      rintro rfl
      exact absurd hspecial (by decide)
    simp only [accepts, List.any_cons, List.any_nil, Range.contains, Bool.or_false, Bool.and_eq_true, beq_iff_eq,
      and_iff_right_iff_imp]
    rintro rfl
    simp [hdot]

theorem matchTokens_cons (h : Single t x) (dots : Bool) (ts : List Token) (atStart : Bool) (cs : List Char) :
    matchTokens dots (t :: ts) atStart cs = true ↔
      ∃ rest, cs = x :: rest ∧ matchTokens dots ts (x == '/') rest = true := by
  cases cs with
  | nil => cases h <;> simp [matchTokens]
  | cons c rest =>
    have hstep : matchTokens dots (t :: ts) atStart (c :: rest) =
        (t.accepts dots atStart c && matchTokens dots ts (c == '/') rest) := by
      cases h <;> rfl
    rw [hstep, Bool.and_eq_true, h.accepts_iff]
    constructor
    · rintro ⟨rfl, hrest⟩
      exact ⟨rest, rfl, hrest⟩
    · rintro ⟨rest', heq, hrest⟩
      obtain ⟨rfl, rfl⟩ := List.cons.inj heq
      exact ⟨rfl, hrest⟩

end Token.Single

/-- Tokens of one character each match their characters and nothing else. -/
theorem matchTokens_iff_eq {ts : List Token} (h : List.Forall₂ Token.Single ts text) (dots atStart : Bool) :
    matchTokens dots ts atStart cs = true ↔ cs = text := by
  induction h generalizing atStart cs with
  | nil => simp [matchTokens]
  | cons hsingle _ ih =>
    rw [hsingle.matchTokens_cons]
    constructor
    · rintro ⟨rest, rfl, hrest⟩
      rw [(ih _).1 hrest]
    · rintro rfl
      exact ⟨_, rfl, (ih _).2 rfl⟩

/-! ## Patterns that are read as a text -/

theorem tokensFrom_of_literalChars? (h : literalChars? cs = some text) (before : Option Char) :
    ∃ ts, tokensFrom before cs = .ok ts ∧ List.Forall₂ Token.Single ts text := by
  induction cs using literalChars?.induct generalizing text before with
  | case1 =>
    cases h
    exact ⟨[], by rw [tokensFrom], .nil⟩
  | case2 c rest hspecial ih =>
    rw [literalChars?, if_pos hspecial] at h
    obtain ⟨more, hmore, rfl⟩ := Option.map_eq_some_iff.1 h
    obtain ⟨ts, hts, hsingle⟩ := ih hmore (some ']')
    refine ⟨.within [.one c] :: ts, ?_, .cons (.special hspecial) hsingle⟩
    rw [tokensFrom_bracket, bracket?_quoted hspecial]
    simp [hts, Except.map, rangesOf]
  | case3 c rest hspecial =>
    rw [literalChars?, if_neg hspecial] at h
    cases h
  | case4 c rest _ hwild =>
    rw [literalChars?, if_pos hwild] at h
    · cases h
    · assumption
  | case5 c rest _ hwild ih =>
    rw [literalChars?, if_neg hwild] at h
    · obtain ⟨more, hmore, rfl⟩ := Option.map_eq_some_iff.1 h
      obtain ⟨ts, hts, hsingle⟩ := ih hmore (some c)
      have hplain : c ≠ '?' ∧ c ≠ '*' ∧ c ≠ '[' := by
        simp only [Bool.or_eq_true, beq_iff_eq, not_or] at hwild
        exact ⟨hwild.1.2, hwild.1.1, hwild.2⟩
      refine ⟨.char c :: ts, ?_, .cons (.char c) hsingle⟩
      rw [tokensFrom_char hplain, hts]
      rfl
    · assumption

/-- **A pattern that is read as a text matches it alone.** An escaped text is read as the text itself; and whatever
pattern is read as a text is a valid one, which matches the text and nothing else, wherever a name may start. -/
theorem literal_patterns_match_alone :
    (∀ s, literal? (escape s) = some s) ∧
      ∀ pattern text, literal? pattern = some text →
        ∃ p, Pattern.ofString pattern = .ok p ∧ ∀ dots s, p.matches dots s = true ↔ s = text := by
  refine ⟨literal?_escape, fun pattern text h => ?_⟩
  obtain ⟨read, hread, rfl⟩ := Option.map_eq_some_iff.1 h
  obtain ⟨ts, hts, hsingle⟩ := tokensFrom_of_literalChars? hread none
  refine ⟨⟨ts⟩, by simp [Pattern.ofString, Pattern.ofChars, hts, Except.map], fun dots s => ?_⟩
  unfold Pattern.matches
  rw [matchTokens_iff_eq hsingle, ← String.toList_inj, String.toList_ofList]

/-- Brackets beside brackets. -/
theorem bracketed_name_matches_alone :
    literal? "proj[[]1[]]/[*]]" = some "proj[1]/*]" ∧ ∃ p, Pattern.ofString "proj[[]1[]]/[*]]" = .ok p ∧
      ∀ dots s, p.matches dots s = true ↔ s = "proj[1]/*]" := by
  have h : literal? "proj[[]1[]]/[*]]" = some "proj[1]/*]" := by cbv
  exact ⟨h, literal_patterns_match_alone.2 _ _ h⟩

end Taskwork.Glob
