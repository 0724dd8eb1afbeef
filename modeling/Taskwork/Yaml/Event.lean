/-
A YAML document as a list of events: scalars, aliases, and the beginnings and ends of sequences
and mappings. What is left out, such as the value of a key, is there as an empty scalar. Where the
text goes wrong the events before that place stand.
-/
import Taskwork.Yaml.Lexer

namespace Taskwork.Yaml

/-- What a node may be marked with. -/
structure Properties where
  anchor : Option String
  tag : Option String
  deriving DecidableEq, Repr, Inhabited

inductive Event where
  | alias (name : String)
  | scalar (text : String) (isPlain : Bool) (p : Properties)
  | sequenceStart (p : Properties)
  | sequenceEnd
  | mappingStart (p : Properties)
  | mappingEnd
  deriving DecidableEq, Repr, Inhabited

/-- The state of reading: the tokens left, the events so far, the last one first, and what the
handles of tags stand for. -/
structure Reading where
  lexer : Lexer
  events : List (Event × Mark)
  handles : List (String × String)

abbrev Grammar (α : Type) := ExceptT Fault (StateM Reading) α

namespace Grammar

/-- Reads tokens. -/
def lex {α : Type} (a : Lex α) : Grammar α := fun r =>
  match a.run r.lexer with
  | .ok (x, lexer) => (.ok x, { r with lexer })
  | .error f => (.error f, r)

def peek : Grammar Spot := lex Lexer.peek

def advance : Grammar Unit := lex Lexer.advance

def emit (e : Event) (mark : Mark) : Grammar Unit :=
  modify fun r => { r with events := (e, mark) :: r.events }

/-- A node that is left out. -/
def emitEmpty (mark : Mark) : Grammar Unit := emit (.scalar "" true ⟨none, none⟩) mark

def fail {α : Type} (p : Problem) (mark : Mark) (context : Option (Context × Mark)) : Grammar α :=
  throw (.grammar p mark context)

/-! ## Nodes -/

/-- The handles that have a meaning without a directive. -/
def standardHandles : List (String × String) := [("!", "!"), ("!!", "tag:yaml.org,2002:")]

/-- The tag that a handle and a suffix stand for. -/
def resolveTag (start mark : Mark) (handle suffix : String) : Grammar String := do
  if handle.isEmpty then return suffix
  else match ((← get).handles ++ standardHandles).lookup handle with
    | some lead => return lead ++ suffix
    | none => fail .undefinedHandle mark (some (.node, start))

/-- Reads the anchor and the tag of a node, in either order; tells also where the node begins. -/
def properties : Grammar (Properties × Mark) := do
  let spot ← peek
  let start := spot.start
  match spot.token with
  | .anchor name =>
    advance
    match ← peek with
    | ⟨.tag handle suffix, mark, _⟩ =>
      advance
      let _ ← peek
      return (⟨some name, some (← resolveTag start mark handle suffix)⟩, start)
    | _ => return (⟨some name, none⟩, start)
  | .tag handle suffix =>
    advance
    match ← peek with
    | ⟨.anchor name, _, _⟩ =>
      advance
      let _ ← peek
      return (⟨some name, some (← resolveTag start start handle suffix)⟩, start)
    | _ => return (⟨none, some (← resolveTag start start handle suffix)⟩, start)
  | _ => return (⟨none, none⟩, start)

/-- The tag of a scalar; a tag that says nothing counts as none. -/
def scalarTag (tag : Option String) : Option String := if tag = some "!" then none else tag

/-- Whether a token ends a node in a block mapping before it has begun. -/
def endsInMapping : Token → Bool
  | .key | .value | .blockEnd => true
  | _ => false

mutual

/-- Reads a node, with constructs nested at most so deep. In a block mapping a sequence need not
be indented. -/
def node : Nat → (isBlock isMappingPart : Bool) → Grammar Unit
  | 0, _, _ => do fail .noNode (← peek).start none
  | depth + 1, isBlock, isMappingPart => do
    let spot ← peek
    match spot.token with
    | .alias name =>
      advance
      emit (.alias name) spot.start
    | _ =>
      let (p, start) ← properties
      let spot ← peek
      match spot.token, isBlock with
      | .scalar text isPlain, _ =>
        advance
        emit (.scalar text isPlain { p with tag := scalarTag p.tag }) start
      | .flowSequenceStart, _ =>
        emit (.sequenceStart p) start
        advance
        flowSequence depth spot.start true
      | .flowMappingStart, _ =>
        emit (.mappingStart p) start
        advance
        flowMapping depth spot.start true
      | .blockSequenceStart, true =>
        emit (.sequenceStart p) start
        advance
        blockSequence depth spot.start
      | .blockMappingStart, true =>
        emit (.mappingStart p) start
        advance
        blockMapping depth spot.start
      | token, _ =>
        if isMappingPart && token == .blockEntry then
          emit (.sequenceStart p) start
          plainSequence depth
        else if p.anchor.isSome || p.tag.isSome then
          emit (.scalar "" true p) start
        else
          fail .noNode spot.start (some (if isBlock then .blockNode else .flowNode, start))

/-- Reads the entries of a block sequence that began at `start`, at most so many. -/
def blockSequence : Nat → Mark → Grammar Unit
  | 0, start => fail .noDash start none
  | entries + 1, start => do
    let spot ← peek
    match spot.token with
    | .blockEntry =>
      advance
      match (← peek).token with
      | .blockEntry | .blockEnd => emitEmpty spot.stop
      | _ => node entries true false
      blockSequence entries start
    | .blockEnd =>
      advance
      emit .sequenceEnd spot.start
    | _ => fail .noDash spot.start (some (.blockCollection, start))

/-- Reads the entries of a sequence that is as far indented as the mapping around it. -/
def plainSequence : Nat → Grammar Unit
  | 0 => do fail .noDash (← peek).start none
  | entries + 1 => do
    let spot ← peek
    match spot.token with
    | .blockEntry =>
      advance
      match (← peek).token with
      | .blockEntry | .key | .value | .blockEnd => emitEmpty spot.stop
      | _ => node entries true false
      plainSequence entries
    | _ => emit .sequenceEnd spot.start

/-- Reads the rows of a block mapping that began at `start`, at most so many. -/
def blockMapping : Nat → Mark → Grammar Unit
  | 0, start => fail .noKey start none
  | rows + 1, start => do
    let spot ← peek
    match spot.token with
    | .key =>
      advance
      if endsInMapping (← peek).token then emitEmpty spot.stop else node rows true true
      blockValue rows
      blockMapping rows start
    | .blockEnd =>
      advance
      emit .mappingEnd spot.start
    | _ => fail .noKey spot.start (some (.blockMapping, start))

/-- Reads the value of a row of a block mapping. -/
def blockValue : Nat → Grammar Unit
  | 0 => do fail .noKey (← peek).start none
  | depth + 1 => do
    let spot ← peek
    match spot.token with
    | .value =>
      advance
      if endsInMapping (← peek).token then emitEmpty spot.stop else node depth true true
    | _ => emitEmpty spot.start

/-- Reads the entries of a flow sequence that began at `start`, at most so many. -/
def flowSequence : Nat → Mark → Bool → Grammar Unit
  | 0, start, _ => fail .noSequenceEnd start none
  | entries + 1, start, isFirst => do
    let spot ← peek
    if spot.token == .flowSequenceEnd then
      advance
      emit .sequenceEnd spot.start
    else
      if !isFirst then
        if spot.token == .flowEntry then advance
        else fail .noSequenceEnd spot.start (some (.flowSequence, start))
      let spot ← peek
      match spot.token with
      | .key =>
        emit (.mappingStart ⟨none, none⟩) spot.start
        advance
        flowPair entries
        flowSequence entries start false
      | .flowSequenceEnd =>
        advance
        emit .sequenceEnd spot.start
      | _ =>
        node entries false false
        flowSequence entries start false

/-- Reads the key and value of a mapping of one row without brackets. -/
def flowPair : Nat → Grammar Unit
  | 0 => do fail .noNode (← peek).start none
  | depth + 1 => do
    let spot ← peek
    match spot.token with
    | .value | .flowEntry | .flowSequenceEnd =>
      advance
      emitEmpty spot.stop
    | _ => node depth false false
    let spot ← peek
    match spot.token with
    | .value =>
      advance
      let next ← peek
      match next.token with
      | .flowEntry | .flowSequenceEnd => emitEmpty next.start
      | _ => node depth false false
    | _ => emitEmpty spot.start
    emit .mappingEnd (← peek).start

/-- Reads the rows of a flow mapping that began at `start`, at most so many. -/
def flowMapping : Nat → Mark → Bool → Grammar Unit
  | 0, start, _ => fail .noMappingEnd start none
  | rows + 1, start, isFirst => do
    let spot ← peek
    if spot.token == .flowMappingEnd then
      advance
      emit .mappingEnd spot.start
    else
      if !isFirst then
        if spot.token == .flowEntry then advance
        else fail .noMappingEnd spot.start (some (.flowMapping, start))
      let spot ← peek
      match spot.token with
      | .flowMappingEnd =>
        advance
        emit .mappingEnd spot.start
      | .key =>
        advance
        let next ← peek
        match next.token with
        | .value | .flowEntry | .flowMappingEnd => emitEmpty next.start
        | _ => node rows false false
        flowValue rows
        flowMapping rows start false
      | _ =>
        node rows false false
        emitEmpty (← peek).start
        flowMapping rows start false

/-- Reads the value of a row of a flow mapping. -/
def flowValue : Nat → Grammar Unit
  | 0 => do fail .noNode (← peek).start none
  | depth + 1 => do
    let spot ← peek
    match spot.token with
    | .value =>
      advance
      let next ← peek
      match next.token with
      | .flowEntry | .flowMappingEnd => emitEmpty next.start
      | _ => node depth false false
    | _ => emitEmpty spot.start

end

/-! ## Documents -/

/-- Reads the directives before a document, at most so many. -/
def directives : Nat → Bool → Grammar Unit
  | 0, _ => pure ()
  | count + 1, hasVersion => do
    let spot ← peek
    match spot.token with
    | .version major minor =>
      if hasVersion then fail .twoVersions spot.start none
      else if major ≠ 1 ∨ (minor ≠ 1 ∧ minor ≠ 2) then fail .badVersion spot.start none
      else
        advance
        directives count true
    | .tagHandle handle lead =>
      if ((← get).handles.lookup handle).isSome then fail .twoTags spot.start none
      else
        modify fun r => { r with handles := r.handles ++ [(handle, lead)] }
        advance
        directives count hasVersion
    | _ => pure ()

/-- Reads the first document, if there is one. -/
def document (steps : Nat) : Grammar Unit := do
  advance
  let spot ← peek
  match spot.token with
  | .streamEnd => pure ()
  | token =>
    let explicit := match token with
      | .version .. | .tagHandle .. | .documentStart => true
      | _ => false
    if explicit then
      directives steps false
      let spot ← peek
      if spot.token != .documentStart then fail .noDocumentStart spot.start none
      advance
      let next ← peek
      match next.token with
      | .version .. | .tagHandle .. | .documentStart | .documentEnd | .streamEnd =>
        emitEmpty next.start
      | _ => node steps true false
    else node steps true false
    if (← peek).token == .documentEnd then advance

/-- Goes past signs that end a document, and tells whether the text ends there. -/
def atStreamEnd : Nat → Grammar Bool
  | 0 => return true
  | count + 1 => do
    match (← peek).token with
    | .documentEnd =>
      advance
      atStreamEnd count
    | .streamEnd => return true
    | _ => return false

end Grammar

/-- The events of a text, the fault that ends them if there is one, and whether something follows
the first document. -/
structure Events where
  list : List (Event × Mark)
  fault : Option Fault
  hasMore : Bool
  deriving Inhabited

/-- The events of the first document of a text. -/
def Events.ofText (text : List Char) : Events :=
  let steps := 8 * text.length + 64
  let act : Grammar Unit := do
    let _ ← Grammar.peek
    Grammar.document steps
  match act.run ⟨Lexer.ofText text, [], []⟩ with
  | (.error f, r) => ⟨r.events.reverse, some f, true⟩
  | (.ok (), r) =>
    let hasMore := match (Grammar.atStreamEnd steps).run r with
      | (.ok atEnd, _) => !atEnd
      | (.error _, _) => true
    ⟨r.events.reverse, none, hasMore⟩

end Taskwork.Yaml
