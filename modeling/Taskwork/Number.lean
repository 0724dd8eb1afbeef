/-
The numbers of data files: whole numbers, which keep all their digits, and doubles.
-/
import Taskwork.Bounds
import Taskwork.Decimal.Text

namespace Taskwork

inductive Number where
  | whole (n : Int)
  | real (x : Float)
  deriving Repr, Inhabited

namespace Number

/-- Whether a script computes with a whole number as such. -/
def isScriptInt (n : Int) : Bool := (Bounds.signed 64).contains n

/-- The double nearest to a whole number. -/
def toFloat (n : Int) : Float :=
  let size := Decimal.nearest n.natAbs 0
  if n < 0 then -size else size

/-- How numbers are shown in messages about data: up to sixteen places are written out. -/
def layout : Decimal.Layout where
  isPositional d := -5 < d.place && d.place ≤ 16
  zero isNegative := if isNegative then "-0.0" else "0.0"
  nan := ".nan"
  infinity := ".inf"

def shown : Number → String
  | .whole n => toString n
  | .real x => layout.text x

/-- Whether two numbers are one key: doubles are compared as numbers, and no number is both. -/
def isSame : Number → Number → Bool
  | .whole a, .whole b => a == b
  | .real a, .real b => a == b || (a.isNaN && b.isNaN)
  | _, _ => false

end Number
end Taskwork
