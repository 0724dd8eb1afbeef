/-
The node that a text stands for. Collections may be nested 128 deep; an alias stands for the node
with its anchor, and there may be a hundred of them for each event.
-/
import Taskwork.Yaml.Event
import Taskwork.Yaml.Plain

namespace Taskwork.Yaml

/-- The events of a document with the places that aliases lead to. -/
structure Source where
  events : Array (Event × Mark)
  /-- The index of the event with an anchor, for each alias by its own index. -/
  targets : List (Nat × Nat)
  /-- What is wrong after the last event. -/
  fault : Fault

namespace Source

/-- The anchor of an event. -/
def anchorOf : Event → Option String
  | .scalar _ _ p | .sequenceStart p | .mappingStart p => p.anchor
  | _ => none

/-- The events up to the first alias without an anchor, with the targets of the others. -/
def link (anchors : List (String × Nat)) (index : Nat) :
    List (Event × Mark) → List (Event × Mark) × List (Nat × Nat) × Option Fault
  | [] => ([], [], none)
  | (.alias name, mark) :: rest =>
    match anchors.lookup name with
    | none => ([], [], some (.unknownAnchor mark))
    | some target =>
      let (events, targets, fault) := link anchors (index + 1) rest
      ((.alias name, mark) :: events, (index, target) :: targets, fault)
  | (e, mark) :: rest =>
    let anchors := match anchorOf e with
      | some name => (name, index) :: anchors
      | none => anchors
    let (events, targets, fault) := link anchors (index + 1) rest
    ((e, mark) :: events, targets, fault)

end Source

/-- Building nodes, with the number of aliases followed so far. -/
abbrev Build (α : Type) := StateT Nat (Except Fault) α

namespace Build

/-- The event at an index and its place. -/
def event (s : Source) (index : Nat) : Build (Event × Mark) :=
  match s.events[index]? with
  | some e => pure e
  | none => throw s.fault

/-- A problem with the node at a place. -/
def fail {α : Type} (p : DataProblem) (mark : Mark) (path : String) : Build α :=
  throw (.data p mark path)

/-- The local name of a tag. -/
def localTag? (tag : Option String) : Option String :=
  tag.bind fun t => match t.toList with
    | ['!'] => some "!"
    | '!' :: name => some (String.ofList name)
    | _ => none

/-- The start of the tags of scalars of a given type. -/
def standard (type : String) : String := "tag:yaml.org,2002:" ++ type

/-- What a scalar stands for, its local tag apart. -/
def scalar (text : String) (isPlain : Bool) (tag : Option String) : Except DataProblem Node :=
  let expect (what : String) : Option Node → Except DataProblem Node
    | some n => .ok n
    | none => .error (.badScalar (Text.shown text) what)
  match tag with
  | none => if isPlain then Plain.resolve text else .ok (.text text)
  | some tag =>
    if tag = standard "bool" then expect "a boolean" ((Plain.bool? text).map .bool)
    else if tag = standard "int" then
      match Plain.integer? text with
      | some n =>
        if Plain.isNarrow n then .ok (.number (.whole n))
        else if Plain.isWide n then .error (.wideInteger n)
        else .error (.badScalar (Text.shown text) "an integer")
      | none => .error (.badScalar (Text.shown text) "an integer")
    else if tag = standard "float" then
      expect "a float" ((Plain.double? text).map fun x => .number (.real x))
    else if tag = standard "null" then
      expect "null" (if Plain.isNull text then some .null else none)
    else .ok (.text text)

/-- The path of an item and of the value of a key. -/
def itemPath (path : String) (index : Nat) : String := path ++ "[" ++ toString index ++ "]"

def keyPath (path : String) (key : Option String) : String :=
  (if path = "." then "" else path ++ ".") ++ key.getD "?"

/-- The text of a key, for paths. -/
def keyText : Event → Option String
  | .scalar text _ _ => some text
  | _ => none

/-- The items from an index on, at most so many, and the index after their end. -/
def items (item : Nat → String → Build (Node × Nat)) (s : Source) (path : String) :
    Nat → (index count : Nat) → Build (List Node × Nat)
  | 0, index, _ => return ([], index)
  | limit + 1, index, count => do
    match ← event s index with
    | (.sequenceEnd, _) => return ([], index + 1)
    | _ =>
      let (n, next) ← item index (itemPath path count)
      let (rest, stop) ← items item s path limit next (count + 1)
      return (n :: rest, stop)

/-- The rows from an index on, at most so many, and the index after their end. A key that is there
already is refused at the place where the mapping begins. -/
def rows (node : Nat → String → Build (Node × Nat)) (s : Source) (start : Mark) (path : String) :
    Nat → Nat → List (Node × Node) → Build (List (Node × Node) × Nat)
  | 0, index, read => return (read.reverse, index)
  | limit + 1, index, read => do
    match ← event s index with
    | (.mappingEnd, _) => return (read.reverse, index + 1)
    | (e, _) =>
      let (key, next) ← node index path
      if read.any fun r => r.1.isSame key then fail (.duplicateKey key.shownKey) start path
      else
        let (value, next) ← node next (keyPath path (keyText e))
        rows node s start path limit next ((key, value) :: read)

/-- The event that an alias leads to, or else the event itself. -/
def follow (s : Source) (index : Nat) : Build Nat :=
  match s.targets.lookup index with
  | none => pure index
  | some target => do
    let count := (← get) + 1
    if s.events.size * 100 < count then throw .tooManyRepetitions
    else
      set count
      return target

/-- Puts the local tag of a node around it. -/
def withTag (tag : Option String) (content : Node) : Node :=
  match localTag? tag with
  | some name => .tagged name content
  | none => content

/-- The node of the event at an index, nested at most so deep in others, and the index after it. -/
def node (s : Source) : (depth : Nat) → Nat → String → Build (Node × Nat) :=
  fun depth index path => do
    let start ← follow s index
    let isAlias := s.targets.any fun t => t.1 == index
    let (n, stop) ← (do
      match ← event s start with
      | (.scalar text isPlain p, mark) =>
        let tag := if (localTag? p.tag).isSome then none else p.tag
        match scalar text isPlain tag with
        | .ok n => return (withTag p.tag n, start + 1)
        | .error problem => fail problem mark path
      | (.sequenceStart p, mark) =>
        match depth with
        | 0 => throw (.tooDeep mark)
        | depth + 1 =>
          let (ns, stop) ← items (node s depth) s path (s.events.size + 1) (start + 1) 0
          return (withTag p.tag (.sequence ns), stop)
      | (.mappingStart p, mark) =>
        match depth with
        | 0 => throw (.tooDeep mark)
        | depth + 1 =>
          let (rs, stop) ← rows (node s depth) s mark path (s.events.size + 1) (start + 1) []
          return (withTag p.tag (.mapping rs), stop)
      | _ => throw s.fault : Build (Node × Nat))
    return (n, if isAlias then index + 1 else stop)

end Build

/-- How deep collections may be nested. -/
def maxDepth : Nat := 128

/-- Whether a document may hold a character. -/
def isAllowed (c : Char) : Bool :=
  let n := c.toNat
  c == '\t' || c == '\n' || c == '\r' || (0x20 ≤ n && n ≤ 0x7E) || n == 0x85 ||
    (0xA0 ≤ n && n ≤ 0xFFFD && n != 0xFEFF) || 0x10000 ≤ n

/-- The number of bytes before the first character that is not allowed. -/
def forbiddenAt? (offset : Nat) : List Char → Option Nat
  | [] => none
  | c :: rest => if isAllowed c then forbiddenAt? (offset + c.utf8Size) rest else some offset

/-- The node that a text stands for. -/
def read (text : String) : Except Fault Node :=
  let (lead, cs) := match text.toList with
    | '\ufeff' :: rest => (3, rest)
    | cs => (0, cs)
  match forbiddenAt? lead cs with
  | some offset => .error (.controlCharacter offset)
  | none =>
    let e := Events.ofText cs
    let (events, targets, unknown) := Source.link [] 0 e.list
    let fault := unknown.or e.fault
    if events.isEmpty && fault.isNone then
      if e.hasMore then .error .manyDocuments else .ok .null
    else
      let s : Source := ⟨events.toArray, targets, fault.getD .manyDocuments⟩
      match (Build.node s maxDepth 0 ".").run 0 with
      | .error f => .error f
      | .ok ((n, _), _) =>
        match fault with
        | some f => .error f
        | none => if e.hasMore then .error .manyDocuments else .ok n

end Taskwork.Yaml
