/-
How the options and the registry of a project are laid out in bytes. Numbers are little-endian,
the count of a list or text takes eight bytes, the kind of a command four and a truth value one; a
record is its fields in order. Reading takes what it needs from the front and leaves the rest.
-/
import Taskwork.Task.Registry
import Taskwork.Text.Utf8

namespace Taskwork.Cache

/-! ## Writing -/

/-- The low `count` bytes of a number, the lowest first. -/
def encodeNat : (count : Nat) → Nat → Bytes
  | 0, _ => []
  | count + 1, n => UInt8.ofNat (n % 256) :: encodeNat count (n / 256)

def encodeText (s : String) : Bytes :=
  let bytes := Utf8.encode s
  encodeNat 8 bytes.length ++ bytes

def encodeList {α : Type} (item : α → Bytes) (xs : List α) : Bytes :=
  encodeNat 8 xs.length ++ xs.flatMap item

def encodeTable (t : Table) : Bytes :=
  encodeList (fun row => encodeText row.1 ++ encodeText row.2) t

def encodeFlag (b : Bool) : Bytes := [if b then 1 else 0]

mutual

def encodeTask : Task → Bytes
  | ⟨name, description, visible, base, deps, inputs, outputs, skipIfExists, env, cmds⟩ =>
    encodeText name ++ encodeText description ++ encodeFlag visible ++ encodeText base ++
      encodeList encodeText deps ++ encodeList encodeText inputs ++
      encodeList encodeText outputs ++ encodeList encodeText skipIfExists ++ encodeTable env ++
      encodeNat 8 cmds.length ++ encodeCommands cmds

def encodeCommands : List TaskCommand → Bytes
  | [] => []
  | .script source :: rest => encodeNat 4 0 ++ encodeText source ++ encodeCommands rest
  | .task t :: rest => encodeNat 4 1 ++ encodeTask t ++ encodeCommands rest

end

def encodeRegistry (r : Registry) : Bytes :=
  encodeList encodeTask r.tasks ++ encodeTable r.env

/-- The content of a cache. -/
def encode (options : Table) (r : Registry) : Bytes := encodeTable options ++ encodeRegistry r

/-! ## Reading -/

/-- Why bytes are no cache. -/
inductive Fault where
  | endOfInput
  | malformedText (m : Utf8.Malformed)
  | notAFlag (byte : UInt8)
  | notACommand (kind : Nat)
  | storedTwice (name : String)
  deriving DecidableEq, Repr

def Fault.message : Fault → String
  | .endOfInput => "io error: failed to fill whole buffer"
  | .malformedText m => "string is not valid utf8: " ++ m.message
  | .notAFlag byte =>
    "invalid u8 while decoding bool, expected 0 or 1, found " ++ toString byte.toNat
  | .notACommand kind =>
    "invalid value: integer \x60" ++ toString kind ++ "\x60, expected variant index 0 <= i < 2"
  | .storedTwice name => "task \"" ++ name ++ "\" is stored twice"

/-- Something read from the front of `bytes`, and what is left. -/
structure Taken (bytes : Bytes) (α : Type) where
  value : α
  rest : Bytes
  le : rest.length ≤ bytes.length

abbrev Reader (α : Type) := (bytes : Bytes) → Except Fault (Taken bytes α)

/-- The first `count` bytes. -/
def take (count : Nat) : Reader Bytes := fun bytes =>
  if bytes.length < count then .error .endOfInput
  else .ok ⟨bytes.take count, bytes.drop count, by simp⟩

def natOfBytes : Bytes → Nat
  | [] => 0
  | b :: bs => b.toNat + 256 * natOfBytes bs

def decodeNat (count : Nat) : Reader Nat := fun bytes => do
  let ⟨taken, rest, h⟩ ← take count bytes
  return ⟨natOfBytes taken, rest, h⟩

def decodeText : Reader String := fun bytes => do
  let ⟨count, rest, h⟩ ← decodeNat 8 bytes
  let ⟨taken, rest', h'⟩ ← take count rest
  match Utf8.decode taken with
  | .ok text => return ⟨text, rest', Nat.le_trans h' h⟩
  | .error m => .error (.malformedText m)

def decodeFlag : Reader Bool
  | [] => .error .endOfInput
  | b :: rest =>
    if b = 0 then .ok ⟨false, rest, by simp⟩
    else if b = 1 then .ok ⟨true, rest, by simp⟩
    else .error (.notAFlag b)

def decodeItems {α : Type} (item : Reader α) : Nat → Reader (List α)
  | 0, bytes => .ok ⟨[], bytes, Nat.le_refl _⟩
  | count + 1, bytes => do
    let ⟨first, rest, h⟩ ← item bytes
    let ⟨more, rest', h'⟩ ← decodeItems item count rest
    return ⟨first :: more, rest', Nat.le_trans h' h⟩

def decodeList {α : Type} (item : Reader α) : Reader (List α) := fun bytes => do
  let ⟨count, rest, h⟩ ← decodeNat 8 bytes
  let ⟨xs, rest', h'⟩ ← decodeItems item count rest
  return ⟨xs, rest', Nat.le_trans h' h⟩

def decodeRow : Reader (String × String) := fun bytes => do
  let ⟨key, rest, h⟩ ← decodeText bytes
  let ⟨value, rest', h'⟩ ← decodeText rest
  return ⟨(key, value), rest', Nat.le_trans h' h⟩

/-- A table is stored by rows; of two rows of one name the later one counts. -/
def decodeTable : Reader Table := fun bytes => do
  let ⟨rows, rest, h⟩ ← decodeList decodeRow bytes
  return ⟨.ofList rows, rest, h⟩

theorem length_of_decodeNat {count : Nat} {bytes : Bytes} {t : Taken bytes Nat}
    (h : decodeNat count bytes = .ok t) : t.rest.length + count = bytes.length := by
  unfold decodeNat take at h
  by_cases hc : bytes.length < count
  · simp [hc, bind, Except.bind] at h
  · simp only [hc, if_false, bind, Except.bind, pure, Except.pure, Except.ok.injEq] at h
    subst h; simp; omega

mutual

def decodeTask (bytes : Bytes) : Except Fault (Taken bytes Task) := do
  let ⟨name, b1, h1⟩ ← decodeText bytes
  let ⟨description, b2, h2⟩ ← decodeText b1
  let ⟨visible, b3, h3⟩ ← decodeFlag b2
  let ⟨base, b4, h4⟩ ← decodeText b3
  let ⟨deps, b5, h5⟩ ← decodeList decodeText b4
  let ⟨inputs, b6, h6⟩ ← decodeList decodeText b5
  let ⟨outputs, b7, h7⟩ ← decodeList decodeText b6
  let ⟨skipIfExists, b8, h8⟩ ← decodeList decodeText b7
  let ⟨env, b9, h9⟩ ← decodeTable b8
  let ⟨count, b10, h10⟩ ← decodeNat 8 b9
  let ⟨cmds, b11, h11⟩ ← decodeCommands count b10
  return ⟨⟨name, description, visible, base, deps, inputs, outputs, skipIfExists, env, cmds⟩,
    b11, by omega⟩
termination_by (bytes.length, 1, 0)
decreasing_by
  have h : b10.length ≤ bytes.length := by omega
  rcases Nat.lt_or_eq_of_le h with h | h
  · exact Prod.Lex.left _ _ h
  · rw [h]; exact Prod.Lex.right _ (Prod.Lex.left _ _ (by omega))

def decodeCommands (count : Nat) (bytes : Bytes) : Except Fault (Taken bytes (List TaskCommand)) :=
  match count with
  | 0 => .ok ⟨[], bytes, Nat.le_refl _⟩
  | count + 1 =>
    match hk : decodeNat 4 bytes with
    | .error e => .error e
    | .ok ⟨kind, b1, h1⟩ => do
      have hlt : b1.length + 4 = bytes.length := length_of_decodeNat hk
      if kind = 0 then
        let ⟨source, b2, h2⟩ ← decodeText b1
        let ⟨more, b3, h3⟩ ← decodeCommands count b2
        return ⟨.script source :: more, b3, by omega⟩
      else if kind = 1 then
        let ⟨task, b2, h2⟩ ← decodeTask b1
        let ⟨more, b3, h3⟩ ← decodeCommands count b2
        return ⟨.task task :: more, b3, by omega⟩
      else .error (.notACommand kind)
termination_by (bytes.length, 0, count)
decreasing_by
  all_goals exact Prod.Lex.left _ _ (by omega)

end

/-- Tasks and environment, then the check that no name is stored twice. -/
def decodeRegistry : Reader Registry := fun bytes => do
  let ⟨tasks, b1, h1⟩ ← decodeList decodeTask bytes
  let ⟨env, b2, h2⟩ ← decodeTable b1
  match Registry.ofTasks env tasks with
  | .ok r => return ⟨r, b2, Nat.le_trans h2 h1⟩
  | .error t => .error (.storedTwice t.name)

/-- The options and the registry at the front of some bytes. -/
def decode (bytes : Bytes) : Except Fault (Table × Registry) := do
  let ⟨options, b1, _⟩ ← decodeTable bytes
  let ⟨r, _, _⟩ ← decodeRegistry b1
  return (options, r)

end Taskwork.Cache
