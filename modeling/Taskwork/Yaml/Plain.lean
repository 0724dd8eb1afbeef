/-
What a plain scalar stands for: null, a truth value, a number or text. Numbers may be written in
the bases two, eight, ten and sixteen; a decimal number with a zero in front is text.
-/
import Taskwork.Yaml.Fault
import Taskwork.Yaml.Node

namespace Taskwork.Yaml.Plain

def isNull (s : String) : Bool := s == "null" || s == "Null" || s == "NULL" || s == "~"

def bool? (s : String) : Option Bool :=
  if s == "true" || s == "True" || s == "TRUE" then some true
  else if s == "false" || s == "False" || s == "FALSE" then some false
  else none

/-- The value of a digit in a base. -/
def digit? (base : Nat) (c : Char) : Option Nat :=
  let n := if c.isDigit then some (c.toNat - '0'.toNat)
    else if 'a' ≤ c ∧ c ≤ 'z' then some (c.toNat - 'a'.toNat + 10)
    else if 'A' ≤ c ∧ c ≤ 'Z' then some (c.toNat - 'A'.toNat + 10)
    else none
  n.filter (· < base)

/-- The number that digits in a base stand for; there must be one at least. -/
def inBase? (base : Nat) (cs : List Char) : Option Nat :=
  if cs.isEmpty then none
  else (cs.mapM (digit? base)).map fun ds => ds.foldl (fun n d => base * n + d) 0

/-- Whether digits with a sign or none have a zero in front of others. -/
def hasLeadingZero (cs : List Char) : Bool :=
  let digits := match cs with
    | '-' :: r => r
    | '+' :: r => r
    | r => r
  1 < digits.length && digits.head? == some '0' && digits.all Char.isDigit

/-- The number that is written without its sign. -/
def unsigned? : List Char → Option Nat
  | '0' :: 'x' :: r => inBase? 16 r
  | '0' :: 'o' :: r => inBase? 8 r
  | '0' :: 'b' :: r => inBase? 2 r
  | cs => if hasLeadingZero cs then none else inBase? 10 cs

/-- A whole number. -/
def integer? (s : String) : Option Int :=
  match s.toList with
  | '-' :: r => (unsigned? r).map fun n => -(n : Int)
  | '+' :: r => (unsigned? r).map Int.ofNat
  | r => (unsigned? r).map Int.ofNat

/-- The digits and the exponent of a decimal fraction. -/
def fraction? (cs : List Char) : Option (Nat × Int) :=
  let whole := cs.takeWhile Char.isDigit
  let afterWhole := cs.dropWhile Char.isDigit
  let (part, rest) := match afterWhole with
    | '.' :: r => (r.takeWhile Char.isDigit, r.dropWhile Char.isDigit)
    | r => ([], r)
  let digits := whole ++ part
  let value := digits.foldl (fun n d => 10 * n + (d.toNat - '0'.toNat)) 0
  let exponent : Option Int := match rest with
    | [] => some 0
    | c :: r =>
      if c = 'e' ∨ c = 'E' then match r with
        | '-' :: r => (inBase? 10 r).map fun n => -(n : Int)
        | '+' :: r => (inBase? 10 r).map Int.ofNat
        | r => (inBase? 10 r).map Int.ofNat
      else none
  if digits.isEmpty then none else exponent.map fun e => (value, e - part.length)

/-- A double that is finite. -/
def finite? (cs : List Char) : Option Float :=
  let size (cs : List Char) : Option Float :=
    (fraction? cs).bind fun (n, e) =>
      let x := Decimal.nearest n e
      if x.isInf then none else some x
  match cs with
  | '-' :: r => (size r).map fun x => -x
  | r => size r

/-- A double, also one that is infinite or no number. -/
def double? (s : String) : Option Float :=
  let infinity := ".inf" :: [".Inf", ".INF"]
  let inf : Float := Float.ofBits 0x7FF0000000000000
  if infinity.contains s || (infinity.map ("+" ++ ·)).contains s then some inf
  else if (infinity.map ("-" ++ ·)).contains s then some (-inf)
  else if [".nan", ".NaN", ".NAN"].contains s then some (Float.ofBits 0x7FF8000000000000)
  else match s.toList with
    | '+' :: '-' :: _ => none
    | '+' :: '+' :: _ => none
    | '+' :: r => finite? r
    | r => finite? r

/-- Whether a whole number has a size that data can hold. -/
def isNarrow (n : Int) : Bool :=
  (Bounds.signed 64).least ≤ n && n ≤ (Bounds.unsigned 64).greatest

/-- The greatest size of a number that is told from text. -/
def isWide (n : Int) : Bool :=
  !isNarrow n && (Bounds.signed 128).least ≤ n && n ≤ (Bounds.unsigned 128).greatest

/-- What a plain scalar stands for. -/
def resolve (s : String) : Except DataProblem Node :=
  if s.isEmpty || isNull s then .ok .null
  else match bool? s with
    | some b => .ok (.bool b)
    | none =>
      match integer? s with
      | some n =>
        if isNarrow n then .ok (.number (.whole n))
        else if isWide n then .error (.wideInteger n)
        else match double? s with
          | some x => .ok (.number (.real x))
          | none => .ok (.text s)
      | none =>
        match if hasLeadingZero s.toList then none else double? s with
        | some x => .ok (.number (.real x))
        | none => .ok (.text s)

end Taskwork.Yaml.Plain
