/-
Reading whole numbers in decimal digits.
-/
import Taskwork.Bounds

namespace Taskwork.Text

/-- The number that digits stand for; there must be one at least. -/
def decimal? (digits : List Char) : Option Nat :=
  if digits.isEmpty || !digits.all Char.isDigit then none
  else some (digits.foldl (fun n d => 10 * n + (d.toNat - '0'.toNat)) 0)

/-- The number a text stands for, with a sign or none, if it lies within some bounds. -/
def integer? (bounds : Bounds) (cs : List Char) : Option Int :=
  let n : Option Int := match cs with
    | '-' :: digits => (decimal? digits).map fun n => -(n : Int)
    | '+' :: digits => (decimal? digits).map fun n => (n : Int)
    | digits => (decimal? digits).map fun n => (n : Int)
  n.filter bounds.contains

end Taskwork.Text
