/-
Scalars as they are written: in quotes, as a block of lines, or plain. Within a scalar a line
break stands for a space, and a break followed by empty lines for the breaks of those.
-/
import Taskwork.Yaml.Place

namespace Taskwork.Yaml.Scalar

/-- White space between two stretches of text. -/
structure Gap where
  /-- Blanks, if no line break was found. -/
  blanks : List Char
  /-- The first line break. -/
  first : List Char
  /-- The line breaks after it. -/
  more : List Char
  /-- Whether a line has begun. -/
  hasBreak : Bool

namespace Gap

def empty : Gap := ⟨[], [], [], false⟩

/-- The text a gap stands for. -/
def text (g : Gap) : List Char :=
  if !g.hasBreak then g.blanks
  else if g.first.head? == some '\n' then
    if g.more.isEmpty then [' '] else g.more
  else g.first ++ g.more

end Gap

/-- Reads blanks and line breaks, in at most so many pieces. A tab before the column `indent` of a
new line is refused if there is one. -/
def gap (start : Mark) (indent : Option Int) : Nat → Gap → Scan Gap
  | 0, g => pure g
  | pieces + 1, g => do
    let p ← get
    if p.fits isBlank then
      if g.hasBreak && p.has '\t' && (indent.map fun i => decide ((p.mark.column : Int) < i)).getD false then
        Scan.fail .plainScalar start .tabInIndent
      else
        Scan.skip 1
        gap start indent pieces
          (if g.hasBreak then g else { g with blanks := g.blanks ++ p.rest.take 1 })
    else if p.fits isBreak then
      let text ← Scan.takeBreak
      gap start indent pieces
        (if g.hasBreak then { g with more := g.more ++ text }
          else { g with blanks := [], first := text, hasBreak := true })
    else pure g

/-! ## Quoted scalars -/

def hexValue? (c : Char) : Option Nat :=
  if c.isDigit then some (c.toNat - '0'.toNat)
  else if 'a' ≤ c ∧ c ≤ 'f' then some (c.toNat - 'a'.toNat + 10)
  else if 'A' ≤ c ∧ c ≤ 'F' then some (c.toNat - 'A'.toNat + 10)
  else none

/-- What a letter after a backslash stands for: a character, or the number of digits of one. -/
def escape? (c : Char) : Option (Char ⊕ Nat) :=
  match c with
  | '0' => some (.inl '\x00')
  | 'a' => some (.inl '\x07')
  | 'b' => some (.inl '\x08')
  | 't' | '\t' => some (.inl '\t')
  | 'n' => some (.inl '\n')
  | 'v' => some (.inl '\x0b')
  | 'f' => some (.inl '\x0c')
  | 'r' => some (.inl '\r')
  | 'e' => some (.inl '\x1b')
  | ' ' => some (.inl ' ')
  | '"' => some (.inl '"')
  | '/' => some (.inl '/')
  | '\\' => some (.inl '\\')
  | 'N' => some (.inl '\x85')
  | '_' => some (.inl '\xa0')
  | 'L' => some (.inl '\u2028')
  | 'P' => some (.inl '\u2029')
  | 'x' => some (.inr 2)
  | 'u' => some (.inr 4)
  | 'U' => some (.inr 8)
  | _ => none

/-- Reads an escape, from its backslash on. -/
def escape (start : Mark) : Scan Char := do
  match ((← get).at? 1).bind escape? with
  | none => Scan.fail .quotedEscape start .unknownEscape
  | some (.inl c) =>
    Scan.skip 2
    return c
  | some (.inr count) =>
    Scan.skip 2
    let digits := (← get).rest.take count
    match digits.mapM hexValue? with
    | none => Scan.fail .quotedEscape start .noHexNumber
    | some ds =>
      let n := ds.foldl (fun n d => 16 * n + d) 0
      if ds.length < count then Scan.fail .quotedEscape start .noHexNumber
      else if (0xD800 ≤ n ∧ n ≤ 0xDFFF) ∨ 0x10FFFF < n then
        Scan.fail .quotedEscape start .badEscapeCode
      else
        Scan.skip count
        return Char.ofNat n

/-- Reads a stretch of a quoted scalar without white space, in at most so many pieces, and tells
whether it ended in an escaped line break. -/
def stretch (start : Mark) (single : Bool) : Nat → Scan (List Char × Bool)
  | 0 => pure ([], false)
  | pieces + 1 => do
    let p ← get
    if p.endsWord then return ([], false)
    else if single && p.has '\'' && p.hasAt 1 '\'' then
      Scan.skip 2
      let (more, e) ← stretch start single pieces
      return ('\'' :: more, e)
    else if p.has (if single then '\'' else '"') then return ([], false)
    else if !single && p.has '\\' then
      if p.fitsAt 1 isBreak then
        Scan.skip 1
        modify Place.skipBreak
        return ([], true)
      else
        let c ← escape start
        let (more, e) ← stretch start single pieces
        return (c :: more, e)
    else
      Scan.skip 1
      let (more, e) ← stretch start single pieces
      return (p.rest.take 1 ++ more, e)

/-- Reads a quoted scalar after its opening quote, in at most so many stretches. -/
def quotedBody (start : Mark) (single : Bool) : Nat → Scan (List Char)
  | 0 => Scan.fail .quotedScalar start .endOfStream
  | pieces + 1 => do
    let p ← get
    if p.atDocumentMark then Scan.fail .quotedScalar start .documentMark
    else if p.isEnd then Scan.fail .quotedScalar start .endOfStream
    else
      let (text, escapedBreak) ← stretch start single (p.rest.length + 1)
      let q ← get
      if q.has (if single then '\'' else '"') then return text
      else
        let g ← gap start none (q.rest.length + 1) { Gap.empty with hasBreak := escapedBreak }
        return text ++ g.text ++ (← quotedBody start single pieces)

/-- Reads a quoted scalar. -/
def quoted (single : Bool) : Scan String := do
  let start := (← get).mark
  Scan.skip 1
  let text ← quotedBody start single ((← get).rest.length + 1)
  Scan.skip 1
  return String.ofList text

/-! ## Plain scalars -/

/-- Whether a character ends a plain scalar between flow brackets. -/
def isFlowMark (c : Char) : Bool := c == ',' || c == '[' || c == ']' || c == '{' || c == '}'

/-- The length of the stretch of a plain scalar at a place, or nothing where a `:` is refused. -/
def plainLength (inFlow : Bool) : Nat → Place → Nat → Option Nat
  | 0, _, n => some n
  | pieces + 1, p, n =>
    if p.endsWordAt n then some n
    else if inFlow && p.hasAt n ':' && p.fitsAt (n + 1) (fun c => isFlowMark c || c == '?') then none
    else if p.hasAt n ':' && p.endsWordAt (n + 1) then some n
    else if inFlow && p.fitsAt n isFlowMark then some n
    else plainLength inFlow pieces p (n + 1)

/-- Reads the stretches of a plain scalar after a gap, at most so many. The result ends where its
last stretch does, and tells whether a line began after it. -/
def plainBody (start : Mark) (inFlow : Bool) (indent : Int) :
    Nat → Gap → Mark → Scan (List Char × Mark × Bool)
  | 0, g, stop => pure ([], stop, g.hasBreak)
  | pieces + 1, g, stop => do
    let p ← get
    if p.atDocumentMark || p.has '#' then return ([], stop, g.hasBreak)
    else
      match plainLength inFlow (p.rest.length + 1) p 0 with
      | none =>
        let upTo := (List.range p.rest.length).find? fun n =>
          p.hasAt n ':' && p.fitsAt (n + 1) fun c => isFlowMark c || c == '?'
        Scan.skip (upTo.getD 0)
        Scan.fail .plainScalar start .colonInFlow
      | some n =>
        Scan.skip n
        let q ← get
        let text := if n = 0 then [] else g.text ++ p.rest.take n
        let stop := if n = 0 then stop else q.mark
        let g := if n = 0 then g else Gap.empty
        if !(q.fits isBlank || q.fits isBreak) then return (text, stop, g.hasBreak)
        else
          let g ← gap start (some indent) (q.rest.length + 1) g
          let r ← get
          if !inFlow && (r.mark.column : Int) < indent then return (text, stop, g.hasBreak)
          else
            let (more, stop, hasBreak) ← plainBody start inFlow indent pieces g stop
            return (text ++ more, stop, hasBreak)

/-- Reads a plain scalar within the column `indent`; tells where it ends and whether a line began
after it. -/
def plain (inFlow : Bool) (indent : Int) : Scan (String × Mark × Bool) := do
  let p ← get
  let (text, stop, hasBreak) ←
    plainBody p.mark inFlow indent (p.rest.length + 1) Gap.empty p.mark
  return (String.ofList text, stop, hasBreak)

/-! ## Block scalars -/

/-- What becomes of the line breaks at the end of a block. -/
inductive Chomping where
  | strip
  | clip
  | keep
  deriving DecidableEq, Repr

def chomping? (c : Char) : Option Chomping :=
  if c = '+' then some .keep else if c = '-' then some .strip else none

/-- Reads the signs after the sign of a block: what becomes of its end, and its indentation. -/
def header (start : Mark) : Scan (Chomping × Option Nat) := do
  let digit : Scan (Option Nat) := do
    match (← get).at? 0 with
    | some c =>
      if c = '0' then Scan.fail .blockScalar start .zeroIndent
      else if c.isDigit then
        Scan.skip 1
        return some (c.toNat - '0'.toNat)
      else return none
    | none => return none
  let sign : Scan (Option Chomping) := do
    match ((← get).at? 0).bind chomping? with
    | some c =>
      Scan.skip 1
      return some c
    | none => return none
  match ← sign with
  | some c => return (c, ← digit)
  | none =>
    match ← digit with
    | none => return (.clip, none)
    | some d => return ((← sign).getD .clip, some d)

/-- Reads the indentation and the empty lines before a line of a block, at most so many lines. The
indentation is not known in the first ones. The result are the breaks, the greatest column that
was reached, and the place after the last break. -/
def emptyLines (start : Mark) (indent : Option Nat) :
    Nat → Nat → Mark → Scan (List Char × Nat × Mark)
  | 0, deepest, stop => pure ([], deepest, stop)
  | lines + 1, deepest, stop => do
    let p ← get
    let spaces := (p.rest.takeWhile (· == ' ')).length
    let room := match indent with
      | none => spaces
      | some i => min spaces (i - p.mark.column)
    Scan.skip room
    let q ← get
    let deepest := max deepest q.mark.column
    if q.has '\t' && (indent.map fun i => decide (q.mark.column < i)).getD true then
      Scan.fail .blockScalar start .tabForIndent
    else if !q.fits isBreak then return ([], deepest, stop)
    else
      let text ← Scan.takeBreak
      let (more, deepest, stop) ← emptyLines start indent lines deepest (← get).mark
      return (text ++ more, deepest, stop)

/-- Reads the lines of a block, at most so many. `first` is the break before the line and `more`
the breaks of the empty lines after it; they count once it is known what follows. -/
def blockLines (start : Mark) (literal : Bool) (indent : Nat) :
    Nat → (wasBlank : Bool) → (first more : List Char) → Mark →
    Scan (List Char × List Char × List Char × Mark)
  | 0, _, first, more, stop => pure ([], first, more, stop)
  | lines + 1, wasBlank, first, more, stop => do
    let p ← get
    if p.mark.column ≠ indent || p.isEnd then return ([], first, more, stop)
    else
      let startsBlank := p.fits isBlank
      let folds := !literal && first.head? == some '\n' && !wasBlank && !startsBlank
      let lead := if folds then (if more.isEmpty then [' '] else []) else first
      let text ← Scan.takeWhile fun c => !isBreak c
      let nextFirst ← Scan.takeBreak
      let q ← get
      let (nextMore, _, nextStop) ← emptyLines start (some indent) (q.rest.length + 1) 0 q.mark
      let (body, first', more', stop') ←
        blockLines start literal indent lines startsBlank nextFirst nextMore nextStop
      return (lead ++ more ++ text ++ body, first', more', stop')

/-- Reads a block scalar inside something indented to the column `outer`. -/
def block (literal : Bool) (outer : Int) : Scan (String × Mark) := do
  let start := (← get).mark
  Scan.skip 1
  let (chomping, given) ← header start
  Scan.skipWhile isBlank
  if (← get).has '#' then modify Place.skipLine
  if !(← get).endsLine then Scan.fail .blockScalar start .noLineEnd
  modify Place.skipBreak
  let p ← get
  let indent := given.map fun n => if 0 ≤ outer then outer.toNat + n else n
  let (breaks, deepest, stop) ← emptyLines start indent (p.rest.length + 1) 0 p.mark
  let indent := indent.getD (max deepest (max (outer + 1).toNat 1))
  let (body, first, more, stop) ←
    blockLines start literal indent (p.rest.length + 1) false [] breaks stop
  let tail := match chomping with
    | .strip => []
    | .clip => first
    | .keep => first ++ more
  return (String.ofList (body ++ tail), stop)

end Taskwork.Yaml.Scalar
