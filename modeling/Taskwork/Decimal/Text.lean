/-
How doubles are written: with all their places where that stays short, else with an exponent.
Where the one form ends and the other begins is a matter of the layout.
-/
import Taskwork.Decimal.Shortest

namespace Taskwork.Decimal

def zeros (n : Nat) : String := String.ofList (List.replicate n '0')

/-- The digits as text. -/
def digitText (d : Decimal) : List Char := Nat.toDigits 10 d.digits

/-- All places of a number, at least one before the point; a whole number has no point. -/
def positional (d : Decimal) : String :=
  let ds := d.digitText
  if 0 ≤ d.exponent then String.ofList ds ++ zeros d.exponent.toNat
  else if d.place ≤ 0 then "0." ++ zeros (-d.place).toNat ++ String.ofList ds
  else String.ofList (ds.take d.place.toNat) ++ "." ++ String.ofList (ds.drop d.place.toNat)

/-- One digit before the point, and the exponent that says where the point belongs. -/
def scientific (d : Decimal) : String :=
  let lead := match d.digitText with
    | [c] => c.toString
    | c :: rest => c.toString ++ "." ++ String.ofList rest
    | [] => "0"
  lead ++ "e" ++ toString (d.place - 1)

/-- A way to write doubles. -/
structure Layout where
  /-- The numbers whose places are all written. -/
  isPositional : Decimal → Bool
  /-- How zero is written, given whether its sign is negative. -/
  zero : Bool → String
  nan : String
  infinity : String

/-- The text of a double. -/
def Layout.text (layout : Layout) (x : Float) : String :=
  let isNegative := signBit ≤ x.toBits.toNat
  let sign := if isNegative then "-" else ""
  if x.isNaN then layout.nan
  else if x.isInf then sign ++ layout.infinity
  else if x.toBits.toNat % signBit = 0 then layout.zero isNegative
  else
    let d := ofFloat x
    if layout.isPositional d then
      sign ++ d.positional ++ (if 0 ≤ d.exponent then ".0" else "")
    else sign ++ d.scientific

end Taskwork.Decimal
