/-
Formats of `printf`: text with escapes, and a place for each argument. The format is used again as
long as arguments are left.
-/
import Taskwork.Text.Hex
import Taskwork.Text.Integer

namespace Taskwork.Program.Format

/-- A piece of a format. -/
inductive Piece where
  | bytes (content : Bytes)
  | text
  | number
  deriving DecidableEq, Repr, Inhabited

/-- The value of up to `count` octal digits, and what follows them. -/
def octal (count : Nat) (value : Nat) : List Char → Nat × List Char
  | c :: rest =>
    match count with
    | 0 => (value, c :: rest)
    | count + 1 =>
      if '0' ≤ c ∧ c ≤ '7' then octal count (8 * value + (c.toNat - '0'.toNat)) rest
      else (value, c :: rest)
  | [] => (value, [])

/-- The bytes of an escape other than an octal one. -/
def escaped (c : Char) : Bytes :=
  match c with
  | 'n' => [10]
  | 't' => [9]
  | 'r' => [13]
  | 'a' => [7]
  | 'b' => [8]
  | 'f' => [12]
  | 'v' => [11]
  | '\\' => [92]
  | '"' => [34]
  | c => Utf8.encode (String.ofList ['\\', c])

theorem length_octal_le (count value : Nat) (cs : List Char) :
    (octal count value cs).2.length ≤ cs.length := by
  induction cs generalizing count value with
  | nil => simp [octal]
  | cons c rest ih =>
    cases count with
    | zero => simp [octal]
    | succ count =>
      simp only [octal]
      split
      · exact Nat.le_succ_of_le (ih _ _)
      · simp

/-- The pieces of a format. -/
def pieces : List Char → List Piece
  | [] => []
  | '\\' :: c :: rest =>
    if '0' ≤ c ∧ c ≤ '7' then
      .bytes [UInt8.ofNat (octal 3 0 (c :: rest)).1] :: pieces (octal 3 0 (c :: rest)).2
    else .bytes (escaped c) :: pieces rest
  | '%' :: '%' :: rest => .bytes [37] :: pieces rest
  | '%' :: 's' :: rest => .text :: pieces rest
  | '%' :: 'd' :: rest => .number :: pieces rest
  | c :: rest => .bytes (Utf8.encode c.toString) :: pieces rest
termination_by cs => cs.length
decreasing_by
  · have := length_octal_le 3 0 (c :: rest)
    simp only [List.length_cons] at this ⊢
    omega
  all_goals simp only [List.length_cons]; omega

/-- One use of a format, with what is left of the arguments. -/
def fill : List Piece → List String → Bytes × List String
  | [], args => ([], args)
  | .bytes content :: rest, args =>
    let (more, args) := fill rest args
    (content ++ more, args)
  | .text :: rest, args =>
    let (more, left) := fill rest (args.drop 1)
    (Utf8.encode (args.headD "") ++ more, left)
  | .number :: rest, args =>
    let (more, left) := fill rest (args.drop 1)
    let n := (Text.integer? (.signed 64) (args.headD "0").toList).getD 0
    (Utf8.encode (toString n) ++ more, left)

/-- What a format and its arguments print; it is used at most once more for each argument. -/
def print (format : List Piece) : (uses : Nat) → List String → Bytes
  | 0, _ => []
  | uses + 1, args =>
    let (out, left) := fill format args
    if left.isEmpty || left.length = args.length then out else out ++ print format uses left

/-- What `printf` prints. -/
def printf : List String → Bytes
  | [] => []
  | format :: args => print (pieces format.toList) (args.length + 1) args

end Taskwork.Program.Format
