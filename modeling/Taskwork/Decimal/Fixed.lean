/-
Doubles with a fixed number of places. The value of a double is a fraction, so it can be rounded
exactly; a half goes to the even neighbour.
-/
import Taskwork.Decimal.Shortest

namespace Taskwork.Decimal

/-- The size of a double as a fraction. -/
def fraction (x : Float) : Nat × Nat :=
  let bits := x.toBits.toNat % signBit
  let e : Nat := bits / binade
  let f : Nat := bits % binade
  if e = 0 then (f, Nat.pow 2 1074)
  else ((f + binade) * Nat.pow 2 (e - 1075), Nat.pow 2 (1075 - e))

/-- The size of a double with one place after the point. -/
def onePlace (x : Float) : String :=
  let (num, den) := fraction x
  let tenths := roundDiv (10 * num) den
  toString (tenths / 10) ++ "." ++ toString (tenths % 10)

end Taskwork.Decimal
