/-
Patterns: `?` stands for any character, `*` for any text, `**` alone between slashes for any
directories, and `[..]` or `[!..]` for one character in or out of a set. What a pattern matches is
said by `Pattern.matches`.
-/

namespace Taskwork.Glob

/-- A member of a set of characters. -/
inductive Range where
  | one (c : Char)
  | span (first last : Char)
  deriving DecidableEq, Repr, Inhabited

def Range.contains (c : Char) : Range → Bool
  | .one x => c == x
  | .span first last => first ≤ c && c ≤ last

inductive Token where
  | char (c : Char)
  | anyChar
  /-- `*` -/
  | anyText
  /-- `**` -/
  | anyDirectories
  | within (set : List Range)
  | without (set : List Range)
  deriving DecidableEq, Repr, Inhabited

/-- Why a text is not a pattern. -/
inductive PatternFault where
  | wildcards
  | recursiveWildcards
  | range
  deriving DecidableEq, Repr, Inhabited

def PatternFault.message : PatternFault → String
  | .wildcards => "wildcards are either regular \x60*\x60 or recursive \x60**\x60"
  | .recursiveWildcards => "recursive wildcards must form a single path component"
  | .range => "invalid range pattern"

/-- The set written between brackets. -/
def rangesOf : List Char → List Range
  | a :: '-' :: b :: rest => .span a b :: rangesOf rest
  | a :: rest => .one a :: rangesOf rest
  | [] => []

/-- A set after its opening bracket: whether it is negated, its characters, and what follows. The
first character is a member even if it is a closing bracket. -/
def bracket? (cs : List Char) : Option (Bool × List Char × List Char) :=
  let close (negated : Bool) (first : Char) (rest : List Char) :=
    match rest.dropWhile (· != ']') with
    | [] => none
    | _ :: after => some (negated, first :: rest.takeWhile (· != ']'), after)
  match cs with
  | '!' :: first :: rest => close true first rest
  | '!' :: [] => none
  | first :: rest => close false first rest
  | [] => none

theorem length_dropWhile_le {α : Type} (p : α → Bool) (l : List α) :
    (l.dropWhile p).length ≤ l.length := by
  induction l with
  | nil => simp
  | cons a l ih =>
    rw [List.dropWhile_cons]
    split
    · exact Nat.le_succ_of_le ih
    · exact Nat.le_refl _

theorem length_of_bracket? {cs : List Char} {n : Bool} {set after : List Char}
    (h : bracket? cs = some (n, set, after)) : after.length < cs.length := by
  have key : ∀ {first : Char} {rest : List Char} {b : Bool},
      (match rest.dropWhile (· != ']') with
        | [] => none
        | _ :: after => some (b, first :: rest.takeWhile (· != ']'), after)) = some (n, set, after) →
      after.length < rest.length := by
    intro first rest b h
    have hle := length_dropWhile_le (fun c : Char => c != ']') rest
    split at h
    · simp at h
    · rename_i heq
      simp only [Option.some.injEq, Prod.mk.injEq] at h
      rw [heq] at hle
      obtain ⟨_, _, rfl⟩ := h
      simp at hle
      omega
  unfold bracket? at h
  simp only at h
  split at h
  · have := key h; simp; omega
  · simp at h
  · have := key h; simp; omega
  · simp at h

/-- The tokens of a pattern, of which `before` is the character before this part. -/
def tokensFrom (before : Option Char) (cs : List Char) : Except PatternFault (List Token) :=
  match cs with
  | [] => .ok []
  | '?' :: rest => (tokensFrom (some '?') rest).map (.anyChar :: ·)
  | '*' :: '*' :: '*' :: _ => .error .wildcards
  | '*' :: '*' :: rest =>
    if before.isNone || before == some '/' then
      match rest with
      | [] => .ok [.anyDirectories]
      | '/' :: rest => (tokensFrom (some '/') rest).map (.anyDirectories :: ·)
      | _ => .error .recursiveWildcards
    else .error .recursiveWildcards
  | '*' :: rest => (tokensFrom (some '*') rest).map (.anyText :: ·)
  | '[' :: rest =>
    match h : bracket? rest with
    | none => .error .range
    | some (negated, set, after) =>
      have := length_of_bracket? h
      let token := if negated then Token.without (rangesOf set) else .within (rangesOf set)
      (tokensFrom (some ']') after).map (token :: ·)
  | c :: rest => (tokensFrom (some c) rest).map (.char c :: ·)
termination_by cs.length
decreasing_by all_goals simp_all <;> omega

/-- The character a token stands for by itself. -/
def Token.char? : Token → Option Char
  | .char c => some c
  | _ => none

structure Pattern where
  tokens : List Token
  deriving DecidableEq, Repr, Inhabited

namespace Pattern

def ofChars (cs : List Char) : Except PatternFault Pattern := (tokensFrom none cs).map (⟨·⟩)

def ofString (s : String) : Except PatternFault Pattern := ofChars s.toList

/-- Whether the pattern is one for any directories. -/
def isRecursive (p : Pattern) : Bool := p.tokens.contains .anyDirectories

/-- The one text that a pattern without wildcards and sets stands for. -/
def text? (p : Pattern) : Option String :=
  (p.tokens.mapM Token.char?).map String.ofList

end Pattern

/-! ## Matching -/

/-- Whether a token that stands for one character stands for `c`. If `dots` is set, a dot at the
start of a name is matched by a dot only. -/
def Token.accepts (dots atStart : Bool) (c : Char) : Token → Bool
  | .char x => c == x
  | .anyChar => !(atStart && dots && c == '.')
  | .within set => !(atStart && dots && c == '.') && set.any (·.contains c)
  | .without set => !(atStart && dots && c == '.') && !set.any (·.contains c)
  | .anyText | .anyDirectories => false

/-- Any text, then what `next` matches. -/
def matchText (dots : Bool) (next : Bool → List Char → Bool) (atStart : Bool) : List Char → Bool
  | [] => next atStart []
  | c :: cs =>
    next atStart (c :: cs) ||
      (!(atStart && dots && c == '.') && matchText dots next (c == '/') cs)

/-- Any text that ends with a slash or takes all there is, then what `next` matches. -/
def matchBelow (dots : Bool) (next : Bool → List Char → Bool) (atStart : Bool) : List Char → Bool
  | [] => next atStart []
  | c :: cs =>
    !(atStart && dots && c == '.') &&
      ((c == '/' && next true cs) || matchBelow dots next (c == '/') cs)

/-- Whether tokens match a text that starts a name or not. -/
def matchTokens (dots : Bool) : List Token → Bool → List Char → Bool
  | [], _, cs => cs.isEmpty
  | .anyText :: ts, atStart, cs => matchText dots (matchTokens dots ts) atStart cs
  | .anyDirectories :: ts, atStart, cs =>
    matchTokens dots ts atStart cs || matchBelow dots (matchTokens dots ts) atStart cs
  | _ :: _, _, [] => false
  | t :: ts, atStart, c :: cs => t.accepts dots atStart c && matchTokens dots ts (c == '/') cs

/-- Whether a pattern matches a text. -/
def Pattern.matches (dots : Bool) (p : Pattern) (s : String) : Bool :=
  matchTokens dots p.tokens true s.toList

end Taskwork.Glob
