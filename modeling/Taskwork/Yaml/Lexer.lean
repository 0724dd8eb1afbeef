/-
The tokens of a YAML document, one after the other. A token may turn out to begin a key only when
the `:` after it is found, so tokens wait in a queue as long as that is open; where a key begins,
and a mapping with it, tokens that say so are put before it.
-/
import Taskwork.Yaml.Token

namespace Taskwork.Yaml

/-- A token that may turn out to begin a key. -/
structure KeyPlace where
  isOpen : Bool
  /-- Nothing else may begin at its column. -/
  isRequired : Bool
  /-- The number of tokens before it. -/
  number : Nat
  mark : Mark
  deriving Inhabited

namespace KeyPlace

def none : KeyPlace := ⟨false, false, 0, Mark.start⟩

end KeyPlace

structure Lexer where
  place : Place
  /-- Tokens that have been read and not been handed out. -/
  queue : List Spot
  /-- The number of tokens that have been handed out. -/
  handed : Nat
  started : Bool
  /-- The column of the block being read, `-1` outside of all, and those of the blocks around it. -/
  indent : Int
  outer : List Int
  /-- The number of flow brackets that are open. -/
  flow : Nat
  keyAllowed : Bool
  /-- The last place for a key, in each of the open brackets and outside. -/
  keys : List KeyPlace
  deriving Inhabited

/-- Reading tokens. -/
abbrev Lex (α : Type) := StateT Lexer (Except Fault) α

namespace Lexer

/-- The lexer at the beginning of a text. -/
def ofText (text : List Char) : Lexer :=
  { place := ⟨text, Mark.start⟩, queue := [], handed := 0, started := false, indent := -1,
    outer := [], flow := 0, keyAllowed := true, keys := [KeyPlace.none] }

def inFlow (l : Lexer) : Bool := l.flow ≠ 0

/-- A problem at the place reached. -/
def fail {α : Type} (p : Problem) (context : Option (Context × Mark)) : Lex α := do
  throw (.grammar p (← get).place.mark context)

/-- Reads at the place reached. -/
def scan {α : Type} (s : Scan α) : Lex α := do
  let l ← get
  let (a, place) ← s.run l.place
  set { l with place }
  return a

/-- Adds a token that begins and ends at two places. -/
def push (token : Token) (start stop : Mark) : Lex Unit :=
  modify fun l => { l with queue := l.queue ++ [⟨token, start, stop⟩] }

/-- Adds a token of `n` characters. -/
def pushSign (token : Token) (n : Nat) : Lex Unit := do
  let start := (← get).place.mark
  scan (Scan.skip n)
  push token start (← get).place.mark

/-- Adds a token as the one of a number. -/
def pushAt (number : Nat) (token : Token) (mark : Mark) : Lex Unit :=
  modify fun l =>
    let n := number - l.handed
    { l with queue := l.queue.take n ++ [⟨token, mark, mark⟩] ++ l.queue.drop n }

/-! ## Keys -/

/-- Gives up places for a key that are on an earlier line or too far back. -/
def closeStaleKeys : Lex Unit := do
  let l ← get
  let isStale (k : KeyPlace) : Bool :=
    k.isOpen && (k.mark.line < l.place.mark.line || k.mark.index + 1024 < l.place.mark.index)
  -- the outermost place is looked at first
  match l.keys.reverse.find? fun k => isStale k && k.isRequired with
  | some k => fail .noColon (some (.simpleKey, k.mark))
  | none =>
    set { l with keys := l.keys.map fun k => if isStale k then { k with isOpen := false } else k }

/-- Gives up the last place for a key. -/
def closeKey : Lex Unit := do
  let l ← get
  match l.keys with
  | [] => pure ()
  | k :: keys =>
    if k.isOpen && k.isRequired then fail .noColon (some (.simpleKey, k.mark))
    else set { l with keys := { k with isOpen := false } :: keys }

/-- Notes that the next token may begin a key. -/
def openKey : Lex Unit := do
  let l ← get
  if l.keyAllowed then
    let k : KeyPlace :=
      { isOpen := true, isRequired := !l.inFlow && l.indent == l.place.mark.column,
        number := l.handed + l.queue.length, mark := l.place.mark }
    closeKey
    modify fun l => { l with keys := k :: l.keys.drop 1 }

def allowKey (allowed : Bool) : Lex Unit := modify fun l => { l with keyAllowed := allowed }

/-! ## Blocks -/

/-- Ends blocks down to a column. -/
def closeBlocks (column : Int) : Lex Unit := do
  let l ← get
  if !l.inFlow then
    let closed := (l.indent :: l.outer).takeWhile fun i => decide (column < i)
    let left := (l.indent :: l.outer).drop closed.length
    let spot : Spot := ⟨.blockEnd, l.place.mark, l.place.mark⟩
    set { l with queue := l.queue ++ List.replicate closed.length spot,
                 indent := left.headD (-1), outer := left.drop 1 }

/-- Begins a block at a column that is further in, as the token of a number if there is one. -/
def openBlock (column : Nat) (number : Option Nat) (token : Token) (mark : Mark) : Lex Unit := do
  let l ← get
  if !l.inFlow && l.indent < column then
    set { l with indent := column, outer := l.indent :: l.outer }
    match number with
    | none => push token mark mark
    | some n => pushAt n token mark

/-! ## Single tokens -/

def directive : Lex Unit := do
  closeBlocks (-1)
  closeKey
  allowKey false
  let start := (← get).place.mark
  let (t, stop) ← scan Token.directive
  push t start stop

def documentSign (token : Token) : Lex Unit := do
  closeBlocks (-1)
  closeKey
  allowKey false
  pushSign token 3

def flowStart (token : Token) : Lex Unit := do
  openKey
  modify fun l => { l with keys := KeyPlace.none :: l.keys, flow := l.flow + 1 }
  allowKey true
  pushSign token 1

def flowEnd (token : Token) : Lex Unit := do
  closeKey
  modify fun l =>
    if l.inFlow then { l with keys := l.keys.drop 1, flow := l.flow - 1 } else l
  allowKey false
  pushSign token 1

def flowEntry : Lex Unit := do
  closeKey
  allowKey true
  pushSign .flowEntry 1

def blockEntry : Lex Unit := do
  let l ← get
  if !l.inFlow then
    if !l.keyAllowed then fail .blockEntryHere none
    openBlock l.place.mark.column none .blockSequenceStart l.place.mark
  closeKey
  allowKey true
  pushSign .blockEntry 1

def keySign : Lex Unit := do
  let l ← get
  if !l.inFlow then
    if !l.keyAllowed then fail .keyHere none
    openBlock l.place.mark.column none .blockMappingStart l.place.mark
  closeKey
  allowKey !l.inFlow
  pushSign .key 1

def valueSign : Lex Unit := do
  let l ← get
  let k := l.keys.headD KeyPlace.none
  if k.isOpen then
    pushAt k.number .key k.mark
    openBlock k.mark.column (some k.number) .blockMappingStart k.mark
    modify fun l => { l with keys := { k with isOpen := false } :: l.keys.drop 1 }
    allowKey false
  else
    if !l.inFlow then
      if !l.keyAllowed then fail .valueHere none
      openBlock l.place.mark.column none .blockMappingStart l.place.mark
    allowKey !l.inFlow
  pushSign .value 1

/-- A token that may begin a key, read at the place reached. -/
def inLine (s : Scan Token) : Lex Unit := do
  openKey
  allowKey false
  let start := (← get).place.mark
  let t ← scan s
  push t start (← get).place.mark

def blockScalar (literal : Bool) : Lex Unit := do
  closeKey
  allowKey true
  let l ← get
  let (text, stop) ← scan (Scalar.block literal l.indent)
  push (.scalar text false) l.place.mark stop

def plainScalar : Lex Unit := do
  openKey
  allowKey false
  let l ← get
  let (text, stop, hasBreak) ← scan (Scalar.plain l.inFlow (l.indent + 1))
  if hasBreak then allowKey true
  push (.scalar text true) l.place.mark stop

def streamEnd : Lex Unit := do
  modify fun l =>
    let m := l.place.mark
    if m.column = 0 then l
    else { l with place := { l.place with mark := { m with line := m.line + 1, column := 0 } } }
  closeBlocks (-1)
  closeKey
  allowKey false
  let m := (← get).place.mark
  push .streamEnd m m

/-! ## The next token -/

/-- Goes past blanks, comments and line breaks, at most so many lines. -/
def skipToToken : Nat → Lex Unit
  | 0 => pure ()
  | lines + 1 => do
    let l ← get
    let p := if l.place.mark.index = 0 && l.place.has '\ufeff' then l.place.skip 1 else l.place
    let tabs := l.inFlow || !l.keyAllowed
    let p := p.skipWhile fun c => c == ' ' || (tabs && c == '\t')
    let p := if p.has '#' then p.skipLine else p
    if p.fits isBreak then
      set { l with place := p.skipBreak, keyAllowed := l.keyAllowed || !l.inFlow }
      skipToToken lines
    else set { l with place := p }

/-- The characters that mean something at the beginning of a token. -/
def isIndicator (c : Char) : Bool :=
  ['-', '?', ':', ',', '[', ']', '{', '}', '#', '&', '*', '!', '|', '>', '\'', '"', '%', '@',
    '\x60'].contains c

/-- Whether a plain scalar may begin at a place. -/
def beginsPlain (inFlow : Bool) (p : Place) : Bool :=
  (!p.endsWord && !p.fits isIndicator) || (p.has '-' && !p.fitsAt 1 isBlank) ||
    (!inFlow && (p.has '?' || p.has ':') && !p.endsWordAt 1)

/-- Reads the next token. -/
def fetch : Lex Unit := do
  if !(← get).started then
    modify fun l => { l with started := true }
    let m := (← get).place.mark
    push .streamStart m m
  else
    skipToToken ((← get).place.rest.length + 1)
    closeStaleKeys
    closeBlocks (← get).place.mark.column
    let l ← get
    let p := l.place
    match p.rest with
    | [] => streamEnd
    | c :: _ =>
      if p.mark.column = 0 && c = '%' then directive
      else if p.atDocumentMark then
        documentSign (if c = '-' then .documentStart else .documentEnd)
      else if c = '[' then flowStart .flowSequenceStart
      else if c = '{' then flowStart .flowMappingStart
      else if c = ']' then flowEnd .flowSequenceEnd
      else if c = '}' then flowEnd .flowMappingEnd
      else if c = ',' then flowEntry
      else if c = '-' && p.endsWordAt 1 then blockEntry
      else if c = '?' && (l.inFlow || p.endsWordAt 1) then keySign
      else if c = ':' && (l.inFlow || p.endsWordAt 1) then valueSign
      else if c = '*' then inLine (Token.alias <$> Token.nameAfterSign .alias)
      else if c = '&' then inLine (Token.anchor <$> Token.nameAfterSign .anchor)
      else if c = '!' then inLine (Token.tagToken l.inFlow)
      else if c = '|' && !l.inFlow then blockScalar true
      else if c = '>' && !l.inFlow then blockScalar false
      else if c = '\'' then inLine ((Token.scalar · false) <$> Scalar.quoted true)
      else if c = '"' then inLine ((Token.scalar · false) <$> Scalar.quoted false)
      else if beginsPlain l.inFlow p then plainScalar
      else fail .noToken (some (.nextToken, p.mark))

/-- Reads tokens until it is known what the first one begins, at most so many. -/
def fill : Nat → Lex Unit
  | 0 => pure ()
  | tokens + 1 => do
    if (← get).queue.isEmpty then
      fetch
      fill tokens
    else
      closeStaleKeys
      let l ← get
      if l.keys.any fun k => k.isOpen && k.number = l.handed then
        fetch
        fill tokens

/-- The next token, which stays the next one. -/
def peek : Lex Spot := do
  fill ((← get).place.rest.length + 4)
  return (← get).queue.headD default

/-- Goes past the next token. -/
def advance : Lex Unit :=
  modify fun l => { l with queue := l.queue.drop 1, handed := l.handed + 1 }

end Lexer
end Taskwork.Yaml
